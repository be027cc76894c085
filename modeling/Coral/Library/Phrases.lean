import Mathlib.Computability.Language
import Mathlib.Data.List.DropRight

/-! Words, and phrases of them with one separator between every two: a text read as its
words, a phrase that is cut short, and the regular language of all phrases. -/

namespace Coral.Library

universe u

variable {α : Type u} {letter : α → Bool} {separator : α}

/-- The longest runs of letters in a text, as they follow each other. -/
def wordsOf (letter : α → Bool) (text : List α) : List (List α) :=
  (text.splitOnP fun char => !letter char).filter (!·.isEmpty)

def phrase (separator : α) (words : List (List α)) : List α := [separator].intercalate words

/-- Each is a word: it has a letter, and nothing but letters. -/
def Words (letter : α → Bool) (words : List (List α)) : Prop :=
  ∀ word ∈ words, word ≠ [] ∧ ∀ char ∈ word, letter char = true

theorem Words.nil : Words letter [] := fun _ member => nomatch member

theorem Words.cons {word : List α} {words : List (List α)} (nonempty : word ≠ [])
    (letters : ∀ char ∈ word, letter char = true) (rest : Words letter words) : Words letter (word :: words) := by
  intro other member
  rcases List.mem_cons.mp member with rfl | later
  · exact ⟨nonempty, letters⟩
  · exact rest other later

theorem Words.head {word : List α} {words : List (List α)} (all : Words letter (word :: words)) :
    word ≠ [] ∧ ∀ char ∈ word, letter char = true := all word (List.mem_cons_self ..)

theorem Words.tail {word : List α} {words : List (List α)} (all : Words letter (word :: words)) : Words letter words :=
  fun other member => all other (List.mem_cons_of_mem _ member)

@[simp] theorem phrase_nil : phrase separator [] = [] := rfl

@[simp] theorem phrase_singleton (word : List α) : phrase separator [word] = word := List.intercalate_singleton

theorem phrase_cons {word : List α} {words : List (List α)} (more : words ≠ []) :
    phrase separator (word :: words) = word ++ separator :: phrase separator words := by
  unfold phrase
  rw [List.intercalate_cons_of_ne_nil more, List.append_assoc]
  rfl

theorem phrase_eq_nil {words : List (List α)} (all : Words letter words) (empty : phrase separator words = []) :
    words = [] := by
  cases words with
  | nil => rfl
  | cons word rest =>
    by_cases last : rest = []
    · subst last
      rw [phrase_singleton] at empty
      exact (all.head.1 empty).elim
    · rw [phrase_cons last] at empty
      simp at empty

theorem mem_phrase {words : List (List α)} {char : α} (member : char ∈ phrase separator words) :
    char = separator ∨ ∃ word ∈ words, char ∈ word := by
  induction words with
  | nil => cases member
  | cons word rest ih =>
    by_cases last : rest = []
    · subst last
      rw [phrase_singleton] at member
      exact .inr ⟨word, List.mem_cons_self .., member⟩
    · rw [phrase_cons last, List.mem_append, List.mem_cons] at member
      rcases member with here | same | later
      · exact .inr ⟨word, List.mem_cons_self .., here⟩
      · exact .inl same
      · exact (ih later).imp_right fun ⟨other, among, inside⟩ => ⟨other, List.mem_cons_of_mem _ among, inside⟩

section Reading

@[simp] theorem wordsOf_nil : wordsOf letter [] = [] := rfl

/-- What is no letter is between two words. -/
theorem wordsOf_skip {char : α} (other : letter char = false) (text : List α) :
    wordsOf letter (char :: text) = wordsOf letter text := by
  unfold wordsOf
  rw [List.splitOnP_cons_eq_if_modifyHead, if_pos (by rw [other]; rfl)]
  rfl

theorem wordsOf_word {word : List α} (nonempty : word ≠ []) (letters : ∀ char ∈ word, letter char = true) :
    wordsOf letter word = [word] := by
  unfold wordsOf
  rw [List.splitOnP_eq_singleton fun char member => by rw [letters char member]; rfl,
    List.filter_cons_of_pos (by simpa using nonempty), List.filter_nil]

theorem wordsOf_append {word : List α} (nonempty : word ≠ []) (letters : ∀ char ∈ word, letter char = true)
    {char : α} (other : letter char = false) (text : List α) :
    wordsOf letter (word ++ char :: text) = word :: wordsOf letter text := by
  unfold wordsOf
  rw [List.splitOnP_append_cons_of_forall_mem (fun char member => by rw [letters char member]; rfl) char
    (by rw [other]; rfl), List.filter_cons_of_pos (by simpa using nonempty)]

/-- The words of a phrase are the ones it was made of. -/
theorem wordsOf_phrase (apart : letter separator = false) {words : List (List α)} (all : Words letter words) :
    wordsOf letter (phrase separator words) = words := by
  induction words with
  | nil => rfl
  | cons word rest ih =>
    obtain ⟨nonempty, letters⟩ := all.head
    by_cases last : rest = []
    · subst last
      rw [phrase_singleton, wordsOf_word nonempty letters]
    · rw [phrase_cons last, wordsOf_append nonempty letters apart, ih all.tail]

private theorem splitOnP_letter {letter : α → Bool} {char : α} (here : letter char = true) (text : List α) :
    ∃ first rest, text.splitOnP (fun char => !letter char) = first :: rest ∧
      (char :: text).splitOnP (fun char => !letter char) = (char :: first) :: rest := by
  obtain ⟨first, rest, split⟩ := List.exists_cons_of_ne_nil (List.splitOnP_ne_nil (fun char => !letter char) text)
  refine ⟨first, rest, split, ?_⟩
  rw [List.splitOnP_cons_eq_if_modifyHead, if_neg (by rw [here]; decide), split, List.modifyHead_cons]

private theorem letters_splitOnP (letter : α → Bool) (text : List α) :
    ∀ word ∈ text.splitOnP (fun char => !letter char), ∀ char ∈ word, letter char = true := by
  induction text with
  | nil =>
    intro word member
    rw [List.splitOnP_nil, List.mem_singleton] at member
    subst member
    simp
  | cons char text ih =>
    cases here : letter char with
    | false =>
      intro word member
      rw [List.splitOnP_cons_eq_if_modifyHead, if_pos (by rw [here]; rfl), List.mem_cons] at member
      rcases member with rfl | later
      · simp
      · exact ih word later
    | true =>
      obtain ⟨first, rest, split, longer⟩ := splitOnP_letter here text
      rw [longer]
      rw [split] at ih
      intro word member
      rcases List.mem_cons.mp member with rfl | later
      · intro other inside
        rcases List.mem_cons.mp inside with rfl | after
        · exact here
        · exact ih first (List.mem_cons_self ..) other after
      · exact ih word (List.mem_cons_of_mem _ later)

theorem words_wordsOf (letter : α → Bool) (text : List α) : Words letter (wordsOf letter text) := by
  intro word member
  obtain ⟨among, nonempty⟩ := List.mem_filter.mp member
  exact ⟨by simpa using nonempty, letters_splitOnP letter text word among⟩

end Reading

section Spelling

/-- The text is the phrase, but for a separator that may be left at its end. -/
def Spells (separator : α) (words : List (List α)) (text : List α) : Prop :=
  text = phrase separator words ∨ words ≠ [] ∧ text = phrase separator words ++ [separator]

theorem Spells.cons {word text : List α} {words : List (List α)} (rest : Spells separator words text) :
    Spells separator (word :: words) (word ++ separator :: text) := by
  by_cases last : words = []
  · subst last
    rcases rest with same | ⟨more, -⟩
    · subst same
      exact .inr ⟨List.cons_ne_nil _ _, by rw [phrase_singleton, phrase_nil]⟩
    · exact (more rfl).elim
  · unfold Spells
    rw [phrase_cons last]
    rcases rest with same | ⟨-, same⟩
    · exact .inl (by rw [same])
    · exact .inr ⟨List.cons_ne_nil _ _, by rw [same, List.append_assoc, List.cons_append]⟩

/-- The start of a word is one, unless nothing is left of it. -/
theorem spells_letters {text : List α} (letters : ∀ char ∈ text, letter char = true) :
    ∃ words, Words letter words ∧ Spells separator words text := by
  by_cases empty : text = []
  · exact ⟨[], .nil, .inl empty⟩
  · exact ⟨[text], .cons empty letters .nil, .inl (phrase_singleton text).symm⟩

/-- A phrase that is cut short still spells words of letters. -/
theorem spells_take (count : Nat) {words : List (List α)} (all : Words letter words) :
    ∃ cut, Words letter cut ∧ Spells separator cut ((phrase separator words).take count) := by
  induction words generalizing count with
  | nil => exact ⟨[], all, .inl List.take_nil⟩
  | cons word rest ih =>
    obtain ⟨nonempty, letters⟩ := all.head
    by_cases last : rest = []
    · subst last
      rw [phrase_singleton]
      exact spells_letters fun char member => letters char (List.mem_of_mem_take member)
    · rw [phrase_cons last]
      by_cases inside : count ≤ word.length
      · rw [List.take_append_of_le_length inside]
        exact spells_letters fun char member => letters char (List.mem_of_mem_take member)
      · obtain ⟨cut, words, spelled⟩ := ih (count - word.length - 1) all.tail
        refine ⟨word :: cut, .cons nonempty letters words, ?_⟩
        have parts : (word ++ separator :: phrase separator rest).take count =
            word ++ separator :: (phrase separator rest).take (count - word.length - 1) := by
          obtain ⟨more, same⟩ := Nat.exists_eq_add_of_lt (Nat.lt_of_not_le inside)
          subst same
          rw [show word.length + more + 1 = word.length + (more + 1) by omega, List.take_length_add_append,
            List.take_succ_cons]
          congr 3
          omega
        rw [parts]
        exact spelled.cons

/-- A phrase does not end in a separator. -/
theorem Words.getLast_phrase (apart : letter separator = false) {words : List (List α)} (all : Words letter words)
    (nonempty : phrase separator words ≠ []) : (phrase separator words).getLast nonempty ≠ separator := by
  induction words with
  | nil => exact (nonempty rfl).elim
  | cons word rest ih =>
    obtain ⟨filled, letters⟩ := all.head
    by_cases last : rest = []
    · subst last
      simp only [phrase_singleton]
      intro same
      have letter := letters _ (List.getLast_mem filled)
      rw [same, apart] at letter
      cases letter
    · have more : phrase separator rest ≠ [] := fun empty => last (phrase_eq_nil all.tail empty)
      simp only [phrase_cons last]
      rw [List.getLast_append_of_ne_nil _ (List.cons_ne_nil _ _), List.getLast_cons more]
      exact ih all.tail more

/-- Whoever drops the separators at the end has the phrase. -/
theorem Spells.rdropWhile [DecidableEq α] (apart : letter separator = false) {words : List (List α)} {text : List α}
    (all : Words letter words) (spelled : Spells separator words text) :
    text.rdropWhile (· = separator) = phrase separator words := by
  have whole : (phrase separator words).rdropWhile (· = separator) = phrase separator words :=
    List.rdropWhile_eq_self_iff.mpr fun nonempty => by simpa using all.getLast_phrase apart nonempty
  rcases spelled with same | ⟨-, same⟩
  · rw [same, whole]
  · rw [same, List.rdropWhile_concat, if_pos (decide_eq_true rfl), whole]

end Spelling

section Pattern

/-- One letter or more. -/
def wordPattern (letter : α → Bool) : Language α :=
  let single : Language α := {text | ∃ char, letter char = true ∧ text = [char]}
  single * KStar.kstar single

/-- A word, and any number of words after it, each behind a separator. -/
def phrasePattern (letter : α → Bool) (separator : α) : Language α :=
  let single : Language α := {[separator]}
  wordPattern letter * KStar.kstar (single * wordPattern letter)

theorem word_mem {word : List α} (nonempty : word ≠ []) (letters : ∀ char ∈ word, letter char = true) :
    word ∈ wordPattern letter := by
  obtain ⟨first, rest, rfl⟩ := List.exists_cons_of_ne_nil nonempty
  refine Language.mem_mul.mpr ⟨[first], ⟨first, letters first (List.mem_cons_self ..), rfl⟩, rest, ?_, rfl⟩
  refine Language.mem_kstar.mpr ⟨rest.map fun char => [char], by rw [← List.flatMap_def, List.flatMap_singleton'], ?_⟩
  intro single member
  obtain ⟨char, inside, rfl⟩ := List.mem_map.mp member
  exact ⟨char, letters char (List.mem_cons_of_mem _ inside), rfl⟩

theorem phrase_mem {words : List (List α)} (some : words ≠ []) (all : Words letter words) :
    phrase separator words ∈ phrasePattern letter separator := by
  obtain ⟨word, rest, rfl⟩ := List.exists_cons_of_ne_nil some
  refine Language.mem_mul.mpr ⟨word, word_mem all.head.1 all.head.2, rest.flatMap (separator :: ·), ?_, ?_⟩
  · refine Language.mem_kstar.mpr ⟨rest.map (separator :: ·), List.flatMap_def .., ?_⟩
    intro part member
    obtain ⟨other, inside, rfl⟩ := List.mem_map.mp member
    obtain ⟨nonempty, letters⟩ := all.tail other inside
    exact Language.mem_mul.mpr ⟨[separator], rfl, other, word_mem nonempty letters, rfl⟩
  · clear some all
    induction rest generalizing word with
    | nil => simp
    | cons next rest ih =>
      rw [phrase_cons (List.cons_ne_nil _ _), ← ih next]
      rfl

end Pattern

end Coral.Library

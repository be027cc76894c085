import Coral.Library.Phrases
import Coral.Node.Evidence

/-! What `slug` keeps of a seed: its words in lower case with single dashes between them,
as many as fit, and never a dash at an end. -/

namespace Coral.Proofs
open Coral.Library

/-- `[a-z0-9]`. -/
def slugChar (char : Char) : Bool := char.isLower || char.isDigit

section Letters

theorem isUpper_iff {char : Char} : char.isUpper = true ↔ 65 ≤ char.val.toNat ∧ char.val.toNat ≤ 90 :=
  decide_eq_true_iff.trans (and_congr UInt32.le_iff_toNat_le UInt32.le_iff_toNat_le)

theorem isLower_iff {char : Char} : char.isLower = true ↔ 97 ≤ char.val.toNat ∧ char.val.toNat ≤ 122 := by
  change (decide _ && decide _) = true ↔ _
  rw [Bool.and_eq_true, decide_eq_true_iff, decide_eq_true_iff]
  exact and_congr UInt32.le_iff_toNat_le UInt32.le_iff_toNat_le

theorem slugChar_range {char : Char} (letter : slugChar char = true) :
    97 ≤ char.val.toNat ∧ char.val.toNat ≤ 122 ∨ 48 ≤ char.val.toNat ∧ char.val.toNat ≤ 57 := by
  rcases Bool.or_eq_true_iff.mp letter with lower | digit
  · exact .inl (isLower_iff.mp lower)
  · exact .inr (by simpa [Char.isDigit, UInt32.le_iff_toNat_le] using digit)

theorem toLower_upper {char : Char} (upper : char.isUpper = true) : char.toLower.isLower = true := by
  have range := isUpper_iff.mp upper
  have lower : char.toLower.val = char.val + 32 := by
    unfold Char.toLower
    rw [dif_pos (of_decide_eq_true upper)]
    rfl
  have value : (char.val + 32).toNat = char.val.toNat + 32 := by
    rw [UInt32.toNat_add, show (32 : UInt32).toNat = 32 from rfl]
    omega
  rw [isLower_iff, lower, value]
  omega

theorem toLower_other {char : Char} (other : char.isUpper = false) : char.toLower = char := by
  unfold Char.toLower
  rw [dif_neg (of_decide_eq_false other)]

theorem slugChar_toLower {char : Char} (letter : char.isAlphanum = true) : slugChar char.toLower = true := by
  unfold slugChar
  cases upper : char.isUpper with
  | true => rw [toLower_upper upper, Bool.true_or]
  | false =>
    rw [toLower_other upper]
    change (char.isUpper || char.isLower || char.isDigit) = true at letter
    rwa [upper, Bool.false_or] at letter

theorem toLower_nonletter {char : Char} (other : char.isAlphanum = false) : char.toLower = char := by
  apply toLower_other
  change (char.isUpper || char.isLower || char.isDigit) = false at other
  simp only [Bool.or_eq_false_iff] at other
  exact other.1.1

/-- A letter of a slug is in lower case already. -/
theorem slugChar_lower {char : Char} (letter : slugChar char = true) :
    char.isAlphanum = true ∧ char.toLower = char := by
  have range := slugChar_range letter
  have upper : char.isUpper = false := by
    rw [Bool.eq_false_iff, ne_eq, isUpper_iff]
    omega
  refine ⟨?_, toLower_other upper⟩
  change (char.isUpper || char.isLower || char.isDigit) = true
  rwa [upper, Bool.false_or]

theorem isAlphanum_toLower (char : Char) : char.toLower.isAlphanum = char.isAlphanum := by
  cases letter : char.isAlphanum with
  | true => exact (slugChar_lower (slugChar_toLower letter)).1
  | false => rw [toLower_nonletter letter, letter]

theorem slugChar_size {char : Char} (letter : slugChar char = true ∨ char = '-') : char.utf8Size = 1 := by
  unfold Char.utf8Size
  rw [if_pos]
  rcases letter with letter | rfl
  · have range := slugChar_range letter
    rw [UInt32.le_iff_toNat_le]
    change _ ≤ 127
    omega
  · decide

end Letters

/-- The words of a seed, in lower case. -/
def seedWords (seed : List Char) : List (List Char) := (wordsOf Char.isAlphanum seed).map (·.map Char.toLower)

/-- The one dash that a text may end with is dropped. -/
def dropDash (body : List Char) : List Char := if body.getLast? = some '-' then body.dropLast else body

/-- What a slug is for: the words of the seed with single dashes between them, cut to its size. -/
def slugSpec (seed : String) : String :=
  String.ofList (dropDash ((phrase '-' (seedWords seed.toList)).take SLUG_BODY_MAX))

section Scan

theorem words_seedWords (seed : List Char) : Words slugChar (seedWords seed) := by
  intro word member
  obtain ⟨letters, among, rfl⟩ := List.mem_map.mp member
  obtain ⟨nonempty, alphanum⟩ := words_wordsOf _ _ letters among
  refine ⟨by simpa using nonempty, ?_⟩
  intro char inside
  obtain ⟨letter, here, rfl⟩ := List.mem_map.mp inside
  exact slugChar_toLower (alphanum letter here)

/-- The loop spells the words of what it has read: with a pending dash it is between two of
them, and else it is inside the one that it has begun. -/
theorem kebab_spells (seed : List Char) :
    Spells '-' (seedWords seed) (kebab true seed) ∧
      ∀ word, word ≠ [] → (∀ char ∈ word, char.isAlphanum = true) →
        Spells '-' (seedWords (word ++ seed)) (word.map Char.toLower ++ kebab false seed) := by
  induction seed with
  | nil =>
    refine ⟨.inl rfl, ?_⟩
    intro word nonempty letters
    have single : seedWords (word ++ []) = [word.map Char.toLower] := by
      unfold seedWords
      rw [List.append_nil, wordsOf_word nonempty letters, List.map_singleton]
    rw [single]
    exact .inl (by rw [phrase_singleton, kebab, List.append_nil])
  | cons char rest ih =>
    obtain ⟨between, inside⟩ := ih
    cases letter : char.isAlphanum with
    | true =>
      have lower : char.toLower.isAlphanum = true := (isAlphanum_toLower char).trans letter
      have next : ∀ pending, kebab pending (char :: rest) = char.toLower :: kebab false rest := by
        intro pending
        simp only [kebab, lower, if_true]
      refine ⟨?_, ?_⟩
      · rw [next]
        exact inside [char] (List.cons_ne_nil _ _) (by simpa using letter)
      · intro word nonempty letters
        have longer := inside (word ++ [char]) (by simp) (by simpa [or_imp, forall_and, letter] using letters)
        rw [next]
        simpa using longer
    | false =>
      have lower : char.toLower.isAlphanum = false := (isAlphanum_toLower char).trans letter
      refine ⟨?_, ?_⟩
      · have skipped : kebab true (char :: rest) = kebab true rest := by
          simp only [kebab, lower, Bool.false_eq_true, if_false, if_true]
        unfold seedWords
        rw [skipped, wordsOf_skip letter]
        exact between
      · intro word nonempty letters
        have dashed : kebab false (char :: rest) = '-' :: kebab true rest := by
          simp only [kebab, lower, Bool.false_eq_true, if_false]
        have ended : seedWords (word ++ char :: rest) = word.map Char.toLower :: seedWords rest := by
          unfold seedWords
          rw [wordsOf_append nonempty letters letter, List.map_cons]
        rw [dashed, ended]
        exact between.cons

end Scan

section Bodies

private theorem dash_apart : slugChar '-' = false := by decide

theorem dropDashes_spells {words : List (List Char)} {text : List Char} (all : Words slugChar words)
    (spelled : Spells '-' words text) : dropDashes text = phrase '-' words :=
  spelled.rdropWhile dash_apart all

theorem dropDash_spells {words : List (List Char)} {text : List Char} (all : Words slugChar words)
    (spelled : Spells '-' words text) : dropDash text = phrase '-' words := by
  unfold dropDash
  rcases spelled with same | ⟨-, same⟩
  · rw [if_neg]
    · exact same
    · intro last
      rw [same] at last
      obtain ⟨start, ended⟩ := List.getLast?_eq_some_iff.mp last
      exact all.getLast_phrase dash_apart (by simp [ended]) (by simp [ended])
  · rw [same, if_pos List.getLast?_concat, List.dropLast_concat]

/-- A slug is the phrase of some words, as much as the cut leaves of the seed's. -/
theorem slug_words (seed : String) : ∃ words, Words slugChar words ∧ (slug seed).toList = phrase '-' words ∧
    Spells '-' words ((phrase '-' (seedWords seed.toList)).take SLUG_BODY_MAX) := by
  have all := words_seedWords seed.toList
  have body : dropDashes (kebab true seed.toList) = phrase '-' (seedWords seed.toList) :=
    dropDashes_spells all (kebab_spells seed.toList).1
  unfold slug
  simp only [body, String.toList_ofList]
  by_cases long : SLUG_BODY_MAX < (phrase '-' (seedWords seed.toList)).length
  · obtain ⟨cut, words, spelled⟩ := @spells_take _ _ '-' SLUG_BODY_MAX _ all
    exact ⟨cut, words, by rw [if_pos long, dropDashes_spells words spelled], spelled⟩
  · refine ⟨seedWords seed.toList, all, by rw [if_neg long], ?_⟩
    rw [List.take_of_length_le (Nat.le_of_not_lt long)]
    exact .inl rfl

theorem slug_eq_spec (seed : String) : slug seed = slugSpec seed := by
  obtain ⟨words, all, body, spelled⟩ := slug_words seed
  apply String.toList_inj.mp
  rw [body, slugSpec, String.toList_ofList, dropDash_spells all spelled]

theorem slug_pattern (seed : String) : slug seed = "" ∨ (slug seed).toList ∈ phrasePattern slugChar '-' := by
  obtain ⟨words, all, body, -⟩ := slug_words seed
  by_cases none : words = []
  · left
    apply String.toList_inj.mp
    rw [body, none]
    rfl
  · right
    rw [body]
    exact phrase_mem none all

theorem slug_chars (seed : String) : ∀ char ∈ (slug seed).toList, slugChar char = true ∨ char = '-' := by
  obtain ⟨words, all, body, -⟩ := slug_words seed
  intro char member
  rw [body] at member
  rcases mem_phrase member with dash | ⟨word, among, inside⟩
  · exact .inr dash
  · exact .inl ((all word among).2 char inside)

theorem slug_length (seed : String) : (slug seed).toList.length ≤ SLUG_BODY_MAX := by
  obtain ⟨words, -, body, same | ⟨-, same⟩⟩ := slug_words seed
  · rw [body, ← same]
    exact List.length_take_le ..
  · have cut := List.length_take_le SLUG_BODY_MAX (phrase '-' (seedWords seed.toList))
    rw [same, List.length_append] at cut
    rw [body]
    omega

/-- Each of its characters is one byte. -/
theorem slug_size (seed : String) : (slug seed).utf8ByteSize ≤ SLUG_BODY_MAX := by
  have single : ∀ text : List Char, (∀ char ∈ text, slugChar char = true ∨ char = '-') →
      (String.ofList text).utf8ByteSize = text.length := by
    intro text
    induction text with
    | nil => exact fun _ => rfl
    | cons char rest ih =>
      intro letters
      rw [String.ofList_cons, String.utf8ByteSize_append, String.utf8ByteSize_singleton,
        slugChar_size (letters char (List.mem_cons_self ..)),
        ih fun other later => letters other (List.mem_cons_of_mem _ later), List.length_cons, Nat.add_comm]
  have whole := single _ (slug_chars seed)
  rw [String.ofList_toList] at whole
  rw [whole]
  exact slug_length seed

/-- The words of a phrase in lower case are read back as they are. -/
theorem seedWords_phrase {words : List (List Char)} (all : Words slugChar words) :
    seedWords (phrase '-' words) = words := by
  have letters : Words Char.isAlphanum words := fun word member =>
    ⟨(all word member).1, fun char inside => (slugChar_lower ((all word member).2 char inside)).1⟩
  unfold seedWords
  rw [wordsOf_phrase (by decide) letters]
  conv_rhs => rw [← List.map_id words]
  apply List.map_congr_left
  intro word member
  conv_rhs => rw [id, ← List.map_id word]
  exact List.map_congr_left fun char inside => (slugChar_lower ((all word member).2 char inside)).2

/-- The cut lands on the dash, which goes with what is behind it. -/
example : slug (String.ofList (List.replicate 79 'a') ++ " / b") = String.ofList (List.replicate 79 'a') := by
  decide +kernel

theorem slug_idempotent (seed : String) : slug (slug seed) = slug seed := by
  obtain ⟨words, all, body, -⟩ := slug_words seed
  have fits : (phrase '-' words).length ≤ SLUG_BODY_MAX := by
    rw [← body]
    exact slug_length seed
  rw [slug_eq_spec (slug seed)]
  apply String.toList_inj.mp
  rw [slugSpec, String.toList_ofList, body, seedWords_phrase all, List.take_of_length_le fits]
  exact dropDash_spells all (.inl rfl)

end Bodies

section Names

/-- A character that the names of evidence are made of, up to their ending. -/
def wordChar (char : Char) : Bool := char.isAlphanum || char = '-'

theorem wordChar_slug {char : Char} (plain : slugChar char = true ∨ char = '-') : wordChar char = true := by
  rcases plain with letter | rfl
  · rw [wordChar, (slugChar_lower letter).1, Bool.true_or]
  · decide

private theorem slugChar_digitChar : ∀ digit < 16, slugChar (Nat.digitChar digit) = true := by decide

theorem slugChar_hexDigits (bytes : List UInt8) : ∀ char ∈ hexDigits bytes, slugChar char = true := by
  intro char member
  obtain ⟨byte, -, digit⟩ := List.mem_flatMap.mp member
  simp only [List.mem_cons, List.not_mem_nil, or_false] at digit
  have bounded : byte.toNat < 256 := byte.toNat_lt
  rcases digit with rfl | rfl
  · exact slugChar_digitChar _ (by omega)
  · exact slugChar_digitChar _ (by omega)

theorem wordChar_hexDigits (bytes : List UInt8) : ∀ char ∈ hexDigits bytes, wordChar char = true :=
  fun char member => wordChar_slug (.inl (slugChar_hexDigits bytes char member))

/-- A word with the ending of a record is one plain name. -/
theorem word_name {body : List Char} (words : ∀ char ∈ body, wordChar char = true) :
    ∃ name : Name, name.text = String.ofList body ++ ".json" ∧ '_' ∉ name.text.toList := by
  have chars : (String.ofList body ++ ".json").toList = body ++ ".json".toList := by
    rw [String.toList_append, String.toList_ofList]
  have free : ∀ char, wordChar char = false → char ∉ ".json".toList → char ∉ (String.ofList body ++ ".json").toList := by
    intro char odd other member
    rw [chars, List.mem_append] at member
    rcases member with early | late
    · rw [words char early] at odd
      cases odd
    · exact other late
  have long : ∀ short : String, short.toList.length < 5 → String.ofList body ++ ".json" ≠ short := by
    intro short fewer same
    rw [← same, chars, List.length_append] at fewer
    have ending : ".json".toList.length = 5 := rfl
    omega
  exact ⟨⟨String.ofList body ++ ".json", long "" (by decide), long "." (by decide), long ".." (by decide),
    free '/' (by decide) (by decide)⟩, rfl, free '_' (by decide) (by decide)⟩

/-- Nor is it taken for a temporary file: it has one dot. -/
theorem word_lasting {body : List Char} (words : ∀ char ∈ body, wordChar char = true) :
    containsText (String.ofList body ++ ".json") ".tmp." = false := by
  have chars : (String.ofList body ++ ".json").toList = body ++ ".json".toList := by
    rw [String.toList_append, String.toList_ofList]
  rw [containsText, decide_eq_false_iff_not, chars]
  intro within
  have dotless : body.count '.' = 0 := by
    rw [List.count_eq_zero]
    intro member
    exact absurd (words '.' member) (by decide)
  have dots := within.sublist.count_le '.'
  rw [List.count_append, dotless] at dots
  exact absurd dots (by decide)

/-- What comes from the seed has no character but letters, digits and dashes in it. -/
theorem evidenceRelpath_stem (seed : String) :
    ∃ stem : List Char, (∀ char ∈ stem, slugChar char = true ∨ char = '-') ∧ ∀ id : EvidenceId,
      evidenceRelpath seed id =
        "evidence/" ++ String.ofList stem ++ String.ofList (id.hex.toList.take 8) ++ ".json" := by
  unfold evidenceRelpath
  simp only
  split
  · exact ⟨[], fun _ member => (nomatch member), fun _ => rfl⟩
  · refine ⟨(slug seed).toList ++ ['-'], ?_, ?_⟩
    · intro char member
      rcases List.mem_append.mp member with early | dash
      · exact slug_chars seed char early
      · exact .inr (List.mem_singleton.mp dash)
    · intro id
      rw [String.ofList_append, String.ofList_toList, ← String.append_assoc]

theorem claimSlug_chars (seed : String) : ∀ char ∈ (claimSlug seed).toList, slugChar char = true ∨ char = '-' := by
  have suffix : ∀ char ∈ (String.ofList (hexDigits ((Sha256.digest seed.toUTF8.toList).take 4))).toList,
      slugChar char = true ∨ char = '-' := by
    intro char member
    rw [String.toList_ofList] at member
    exact .inl (slugChar_hexDigits _ char member)
  unfold claimSlug
  simp only
  split
  · exact suffix
  · intro char member
    rw [String.toList_append, String.toList_append, List.mem_append, List.mem_append] at member
    rcases member with (early | dash) | late
    · exact slug_chars seed char early
    · exact .inr (List.mem_singleton.mp dash)
    · exact suffix char late

/-- The path is a plain name in that directory, and has no other component. -/
def Directly (directory path : String) : Prop :=
  ∃ above name : Name, above.text = directory ∧ components path = [.normal above, .normal name]

theorem directly_word {body : List Char} (words : ∀ char ∈ body, wordChar char = true) (directory : Name) :
    Directly directory.text (directory.text ++ "/" ++ (String.ofList body ++ ".json")) := by
  obtain ⟨name, text, -⟩ := word_name words
  have path : joinPath [directory, name] = directory.text ++ "/" ++ (String.ofList body ++ ".json") := by
    rw [← text]
    rfl
  refine ⟨directory, name, rfl, ?_⟩
  rw [← path, components_joinPath (List.cons_ne_nil directory [name])]
  rfl

/-- A slug is a phrase of a bounded size that is its own slug, and as its purpose says. No path
that is built on a seed leaves its directory through it. -/
theorem slug_safe (seed : String) :
    (slug seed = "" ∨ (slug seed).toList ∈ phrasePattern slugChar '-') ∧
      (slug seed).utf8ByteSize ≤ SLUG_BODY_MAX ∧
      slug (slug seed) = slug seed ∧
      slug seed = slugSpec seed ∧
      (∃ stem : List Char, (∀ char ∈ stem, slugChar char = true ∨ char = '-') ∧ ∀ id : EvidenceId,
        evidenceRelpath seed id =
          "evidence/" ++ String.ofList stem ++ String.ofList (id.hex.toList.take 8) ++ ".json") ∧
      (∀ tool args result, Directly "evidence" (evidenceRelpath seed (.new tool args result))) ∧
      ∃ stem : List Char, (∀ char ∈ stem, slugChar char = true ∨ char = '-') ∧
        (∀ fs : AgentFs, fs.claimKey seed = fs.key ("claims/" ++ String.ofList stem ++ ".json")) ∧
        Directly "claims" ("claims/" ++ String.ofList stem ++ ".json") := by
  refine ⟨slug_pattern seed, slug_size seed, slug_idempotent seed, slug_eq_spec seed, evidenceRelpath_stem seed, ?_,
    (claimSlug seed).toList, claimSlug_chars seed, fun fs => ?_, ?_⟩
  · intro tool args result
    obtain ⟨stem, plain, path⟩ := evidenceRelpath_stem seed
    have words : ∀ char ∈ stem ++ (EvidenceId.new tool args result).hex.toList.take 8, wordChar char = true := by
      intro char member
      rcases List.mem_append.mp member with early | late
      · exact wordChar_slug (plain char early)
      · have digit := List.mem_of_mem_take late
        unfold EvidenceId.new at digit
        rw [String.toList_ofList] at digit
        exact wordChar_hexDigits _ char digit
    rw [path, String.append_assoc, String.append_assoc, ← @String.append_assoc (String.ofList stem),
      ← String.ofList_append]
    exact directly_word words ⟨"evidence", by decide⟩
  · rw [String.ofList_toList]
    rfl
  · rw [String.append_assoc]
    exact directly_word (fun char member => wordChar_slug (claimSlug_chars seed char member)) ⟨"claims", by decide⟩

end Names

end Coral.Proofs

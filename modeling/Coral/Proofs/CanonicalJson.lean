import Coral.Library.Codes
import Coral.Node.Evidence

/-! Canonical JSON can be read back: the bytes of a value determine it, up to the order of
its members and the kind of its numbers, and so do the bytes that an id is the hash of. -/

namespace Coral

/-- A JSON value on its own: a number is its text, and an object a finite map. -/
inductive JsonValue where
  | null
  | bool (value : Bool)
  | number (text : String)
  | string (text : String)
  | array (items : List JsonValue)
  | object (members : String → Option JsonValue)

namespace Json

mutual
def value : Json → JsonValue
  | .null => .null
  | .bool truth => .bool truth
  | .number numeral => .number (String.ofList (renderNumber numeral))
  | .string text => .string text
  | .array items => .array (itemValues items)
  | .object members => .object fun key => (memberValues members).lookup key

def itemValues : List Json → List JsonValue
  | [] => []
  | item :: items => value item :: itemValues items

def memberValues : List (String × Json) → List (String × JsonValue)
  | [] => []
  | (key, item) :: members => (key, value item) :: memberValues members
end

def numberChar (char : Char) : Bool := char.isDigit || char ∈ ['-', '+', '.', 'e', 'E']

/-- What a `serde_json::Value` can be: no number has an odd text, and no key is in an object twice. -/
inductive Held : Json → Prop where
  | null : Held .null
  | bool (truth : Bool) : Held (.bool truth)
  | number {numeral : JsonNumber} (spelled : ∀ text, numeral = .float text →
    text.toList ≠ [] ∧ ∀ char ∈ text.toList, numberChar char = true) : Held (.number numeral)
  | string (text : String) : Held (.string text)
  | array {items : List Json} (each : ∀ item ∈ items, Held item) : Held (.array items)
  | object {members : List (String × Json)} (distinct : (members.map (·.1)).Nodup)
    (each : ∀ member ∈ members, Held member.2) : Held (.object members)

end Json

end Coral

namespace Coral.Proofs
open Coral.Library Json

section Lists

theorem itemValues_eq (items : List Json) : itemValues items = items.map value := by
  induction items with
  | nil => rfl
  | cons item items ih => rw [itemValues, ih, List.map_cons]

theorem memberValues_eq (members : List (String × Json)) : memberValues members = members.map (Prod.map id value) := by
  induction members with
  | nil => rfl
  | cons member members ih =>
    obtain ⟨key, item⟩ := member
    rw [memberValues, ih, List.map_cons]
    rfl

theorem canonicalItems_eq (items : List Json) : canonicalItems items = items.map canonical := by
  induction items with
  | nil => rfl
  | cons item items ih => rw [canonicalItems, ih, List.map_cons]

theorem canonicalMembers_eq (members : List (String × Json)) :
    canonicalMembers members = members.map (Prod.map id canonical) := by
  induction members with
  | nil => rfl
  | cons member members ih =>
    obtain ⟨key, item⟩ := member
    rw [canonicalMembers, ih, List.map_cons]
    rfl

theorem renderItems_eq (items : List Json) : renderItems items = separated ',' (items.map render) := by
  induction items with
  | nil => rfl
  | cons item items ih =>
    cases items with
    | nil => simp [renderItems, separated]
    | cons other items =>
      rw [renderItems, ih]
      · simp [separated]
      · intro same
        cases same

/-- A key and the text of its value, as a member is written. -/
def memberText (member : String × List Char) : List Char := renderString member.1 ++ ':' :: member.2

theorem renderMembers_eq (members : List (String × Json)) :
    renderMembers members = separated ',' ((members.map (Prod.map id render)).map memberText) := by
  induction members with
  | nil => rfl
  | cons member members ih =>
    obtain ⟨key, item⟩ := member
    cases members with
    | nil => simp [renderMembers, separated, memberText]
    | cons other members =>
      rw [renderMembers, ih]
      · simp [separated, memberText]
      · intro same
        cases same

/-- Where no key is twice, what is looked up is what is there. -/
theorem lookup_distinct {γ : Type} {members : List (String × γ)} (distinct : (members.map (·.1)).Nodup) {key : String}
    {item : γ} : members.lookup key = some item ↔ (key, item) ∈ members := by
  induction members with
  | nil => simp
  | cons member members ih =>
    obtain ⟨first, there⟩ := member
    rw [List.map_cons, List.nodup_cons] at distinct
    rw [List.lookup_cons, List.mem_cons]
    by_cases here : key = first
    · subst here
      have absent : (key, item) ∉ members := fun member => distinct.1 (List.mem_map.mpr ⟨_, member, rfl⟩)
      simp [absent, eq_comm]
    · rw [show (key == first) = false from beq_eq_false_iff_ne.mpr here]
      simp only [ih distinct.2, Prod.mk.injEq, here, false_and, false_or]

end Lists

section Strings

private def nibble (digit : Char) : Nat := if digit.isDigit then digit.toNat - 48 else digit.toNat - 87

/-- The character that an escaped text starts with, and what is after it. -/
private def unescape : List Char → Option (Char × List Char)
  | '\\' :: '"' :: rest => some ('"', rest)
  | '\\' :: '\\' :: rest => some ('\\', rest)
  | '\\' :: 'n' :: rest => some ('\n', rest)
  | '\\' :: 'r' :: rest => some ('\r', rest)
  | '\\' :: 't' :: rest => some ('\t', rest)
  | '\\' :: 'b' :: rest => some (Char.ofNat 8, rest)
  | '\\' :: 'f' :: rest => some (Char.ofNat 12, rest)
  | '\\' :: 'u' :: '0' :: '0' :: high :: low :: rest => some (Char.ofNat (16 * nibble high + nibble low), rest)
  | char :: rest => some (char, rest)
  | [] => none

private theorem nibble_digits : ∀ code < 32,
    16 * nibble (Nat.digitChar (code / 16)) + nibble (Nat.digitChar (code % 16)) = code := by decide

private theorem unescape_escape (char : Char) (rest : List Char) : unescape (escape char ++ rest) = some (char, rest) := by
  unfold escape
  split_ifs with quote backslash newline carriage tab backspace feed low
  · rw [quote]
    rfl
  · rw [backslash]
    rfl
  · rw [newline]
    rfl
  · rw [carriage]
    rfl
  · rw [tab]
    rfl
  · rw [backspace]
    rfl
  · rw [feed]
    rfl
  · change some (Char.ofNat _, rest) = _
    rw [nibble_digits _ low, Char.ofNat_toNat]
  · simp only [List.cons_append, List.nil_append]
    unfold unescape
    split <;> simp_all

theorem escape_inj (char other : Char) (rest more : List Char) (same : escape char ++ rest = escape other ++ more) :
    char = other ∧ rest = more := by
  have read := unescape_escape char rest
  rw [same, unescape_escape] at read
  exact ⟨(Prod.mk.inj (Option.some.inj read)).1.symm, (Prod.mk.inj (Option.some.inj read)).2.symm⟩

/-- A quote is never written as it stands. -/
theorem escape_unquoted (char : Char) (rest more : List Char) : escape char ++ rest ≠ '"' :: more := by
  unfold escape
  repeat' split
  all_goals simp_all

theorem renderString_inj {text other : String} {rest more : List Char}
    (same : renderString text ++ rest = renderString other ++ more) : text = other ∧ rest = more := by
  unfold renderString at same
  simp only [List.append_assoc, List.cons_append, List.nil_append, List.cons.injEq, true_and] at same
  obtain ⟨chars, whole⟩ := flatMap_inj escape_inj escape_unquoted same
  exact ⟨String.toList_inj.mp chars, whole⟩

end Strings

section Values

/-- What may stand right after a value. -/
def Stops (char : Char) : Prop := char = ',' ∨ char = ']' ∨ char = '}'

/-- The text of a number is some characters of numbers. -/
theorem renderNumber_spelled {numeral : JsonNumber} (held : Held (.number numeral)) :
    renderNumber numeral ≠ [] ∧ ∀ char ∈ renderNumber numeral, numberChar char = true := by
  have digits : ∀ {value : Nat} {char : Char}, char ∈ Nat.toDigits 10 value → numberChar char = true := by
    intro value char member
    have digit := Nat.isDigit_of_mem_toDigits (by decide) (by decide) member
    simp [numberChar, digit]
  cases held with
  | number spelled =>
    cases numeral with
    | posInt value => exact ⟨Nat.toDigits_ne_nil, fun char => digits⟩
    | negInt magnitude =>
      refine ⟨List.cons_ne_nil _ _, ?_⟩
      intro char member
      rcases List.mem_cons.mp member with rfl | later
      · decide
      · exact digits later
    | float text => exact spelled text rfl

/-- Which kind of value starts with the character. -/
private def kindOf (char : Char) : Nat :=
  if char = 'n' then 0 else if char = 't' then 1 else if char = 'f' then 2 else if char = '"' then 3
  else if char = '[' then 4 else if char = '{' then 5 else 6

private def kind : Json → Nat
  | .null => 0
  | .bool true => 1
  | .bool false => 2
  | .string _ => 3
  | .array _ => 4
  | .object _ => 5
  | .number _ => 6

private theorem numberChar_kind {char : Char} (spelled : numberChar char = true) : kindOf char = 6 ∧ ¬ Stops char := by
  have apart : ∀ other, numberChar other = false → char ≠ other := by
    rintro other odd rfl
    rw [spelled] at odd
    cases odd
  unfold kindOf
  rw [if_neg (apart 'n' (by decide)), if_neg (apart 't' (by decide)), if_neg (apart 'f' (by decide)),
    if_neg (apart '"' (by decide)), if_neg (apart '[' (by decide)), if_neg (apart '{' (by decide))]
  refine ⟨rfl, ?_⟩
  rintro (comma | bracket | brace)
  · exact apart ',' (by decide) comma
  · exact apart ']' (by decide) bracket
  · exact apart '}' (by decide) brace

private theorem render_head {value : Json} (held : value.Held) :
    ∃ char text, value.render = char :: text ∧ kindOf char = kind value ∧ ¬ Stops char := by
  cases value with
  | null => exact ⟨_, _, rfl, rfl, by unfold Stops; decide⟩
  | bool truth => cases truth <;> exact ⟨_, _, rfl, rfl, by unfold Stops; decide⟩
  | string text => exact ⟨_, _, rfl, rfl, by unfold Stops; decide⟩
  | array items => exact ⟨_, _, rfl, rfl, by unfold Stops; decide⟩
  | object members => exact ⟨_, _, rfl, rfl, by unfold Stops; decide⟩
  | number numeral =>
    obtain ⟨nonempty, spelled⟩ := renderNumber_spelled held
    obtain ⟨char, text, whole⟩ := List.exists_cons_of_ne_nil nonempty
    rw [whole] at spelled
    exact ⟨char, text, whole, numberChar_kind (spelled char List.mem_cons_self)⟩

private theorem same_kind {value other : Json} {rest more : List Char} (held : value.Held) (right : other.Held)
    (same : value.render ++ rest = other.render ++ more) : kind value = kind other := by
  obtain ⟨char, text, first, kinds, -⟩ := render_head held
  obtain ⟨head, tail, second, others, -⟩ := render_head right
  rw [first, second] at same
  rw [← kinds, (List.cons.inj same).1, others]

private theorem render_opens (value : Json) (held : value.Held) (text more : List Char) (whole : value.render ++ text = more) :
    ¬ Stopped Stops more := by
  obtain ⟨char, tail, first, -, free⟩ := render_head held
  rw [← whole, first]
  exact free

private theorem member_opens (member : String × Json) (_held : member.2.Held) (text more : List Char)
    (whole : memberText (Prod.map id render member) ++ text = more) : ¬ Stopped Stops more := by
  rw [← whole]
  change ¬ Stops '"'
  unfold Stops
  decide

/-- A member is read off once its value is. -/
private theorem member_readsOff {member : String × Json} (item : ReadsOff Stops render value Held member.2) :
    ReadsOff Stops (fun member => memberText (Prod.map id render member)) (Prod.map id value)
      (fun member : String × Json => member.2.Held) member := by
  obtain ⟨key, first⟩ := member
  intro ⟨other, second⟩ rest more held stopped halted same
  simp only [memberText, Prod.map, id, List.append_assoc, List.cons_append] at same
  obtain ⟨rfl, tail⟩ := renderString_inj same
  obtain ⟨meaning, whole⟩ := item second rest more held stopped halted (List.cons.inj tail).2
  exact ⟨Prod.ext rfl meaning, whole⟩

private theorem of_kind {value other : Json} (kinds : kind value = kind other) :
    match value with
    | .null => other = .null
    | .bool truth => other = .bool truth
    | .string _ => ∃ text, other = .string text
    | .array _ => ∃ items, other = .array items
    | .object _ => ∃ members, other = .object members
    | .number _ => ∃ numeral, other = .number numeral := by
  rcases value with _ | (_ | _) | _ | _ | _ | _ <;> rcases other with _ | (_ | _) | _ | _ | _ | _ <;>
    first | rfl | exact ⟨_, rfl⟩ | cases kinds

/-- A value is read off the front of every text that goes on as JSON does. -/
theorem render_readsOff {first : Json} (held : first.Held) : ReadsOff Stops render value Held first := by
  induction held with
  | null =>
    intro other rest more right stopped halted same
    have alike : other = .null := of_kind (same_kind .null right same)
    subst alike
    exact ⟨rfl, List.append_cancel_left same⟩
  | bool truth =>
    intro other rest more right stopped halted same
    have alike : other = .bool truth := of_kind (same_kind (.bool truth) right same)
    subst alike
    exact ⟨rfl, List.append_cancel_left same⟩
  | string text =>
    intro other rest more right stopped halted same
    obtain ⟨text', rfl⟩ := of_kind (same_kind (.string text) right same)
    obtain ⟨rfl, whole⟩ := renderString_inj same
    exact ⟨rfl, whole⟩
  | @number numeral spelled =>
    intro other rest more right stopped halted same
    obtain ⟨numeral', rfl⟩ := of_kind (same_kind (.number spelled) right same)
    have clean : ∀ {numeral : JsonNumber}, Held (.number numeral) → ∀ char ∈ renderNumber numeral, ¬ Stops char :=
      fun held char member => (numberChar_kind ((renderNumber_spelled held).2 char member)).2
    obtain ⟨texts, whole⟩ := stopped_inj (clean (.number spelled)) (clean right) stopped halted same
    exact ⟨congrArg (fun text => JsonValue.number (String.ofList text)) texts, whole⟩
  | @array items each ih =>
    intro other rest more right stopped halted same
    obtain ⟨items', rfl⟩ := of_kind (same_kind (.array each) right same)
    cases right with
    | array each' =>
      simp only [render, renderItems_eq, List.append_assoc, List.cons_append, List.nil_append, List.cons.injEq,
        true_and] at same
      obtain ⟨meanings, whole⟩ := separated_inj (by decide) (.inl rfl) (.inr (.inl rfl)) render_opens
        (fun item member => ⟨each item member, ih item member⟩) each' same
      exact ⟨by rw [value, value, itemValues_eq, itemValues_eq, meanings], whole⟩
  | @object members distinct each ih =>
    intro other rest more right stopped halted same
    obtain ⟨members', rfl⟩ := of_kind (same_kind (.object distinct each) right same)
    cases right with
    | object distinct' each' =>
      simp only [render, renderMembers_eq, List.map_map, List.append_assoc, List.cons_append, List.nil_append,
        List.cons.injEq, true_and] at same
      obtain ⟨meanings, whole⟩ := separated_inj (by decide) (.inl rfl) (.inr (.inr rfl)) member_opens
        (fun member there => ⟨each member there, member_readsOff (ih member there)⟩) each' same
      exact ⟨by rw [value, value, memberValues_eq, memberValues_eq, meanings], whole⟩

end Values

section Sorting

variable {γ δ : Type}

/-- The members as they are written. -/
def byKey (members : List (String × γ)) : List (String × γ) :=
  members.insertionSort fun first second => first.1.toList ≤ second.1.toList

theorem byKey_perm (members : List (String × γ)) : (byKey members).Perm members := List.perm_insertionSort _ members

theorem byKey_map (convert : γ → δ) (members : List (String × γ)) :
    (byKey members).map (Prod.map id convert) = byKey (members.map (Prod.map id convert)) :=
  List.map_insertionSort _ _ _ _ fun _ _ _ _ => Iff.rfl

theorem keys_map (convert : γ → δ) (members : List (String × γ)) :
    (members.map (Prod.map id convert)).map (·.1) = members.map (·.1) := by
  rw [List.map_map]
  rfl

theorem lookup_byKey {members : List (String × γ)} (distinct : (members.map (·.1)).Nodup) (key : String) :
    (byKey members).lookup key = members.lookup key := by
  have sorted : ((byKey members).map (·.1)).Nodup := ((byKey_perm members).map _).nodup_iff.mpr distinct
  ext item
  rw [lookup_distinct sorted, lookup_distinct distinct, (byKey_perm members).mem_iff]

/-- The order of the members makes no difference. -/
theorem byKey_congr {first second : List (String × γ)} (distinct : (first.map (·.1)).Nodup)
    (apart : (second.map (·.1)).Nodup) (same : ∀ member, member ∈ first ↔ member ∈ second) : byKey first = byKey second := by
  have sorted : ∀ members : List (String × γ),
      (byKey members).Pairwise fun one other => one.1.toList ≤ other.1.toList := by
    intro members
    have : Std.Total fun one other : String × γ => one.1.toList ≤ other.1.toList := ⟨fun _ _ => le_total _ _⟩
    have : IsTrans (String × γ) fun one other => one.1.toList ≤ other.1.toList := ⟨fun _ _ _ => le_trans⟩
    exact List.pairwise_insertionSort _ members
  apply List.Perm.eq_of_pairwise _ (sorted first) (sorted second)
  · apply ((byKey_perm first).trans _).trans (byKey_perm second).symm
    exact (List.perm_ext_iff_of_nodup (List.Nodup.of_map _ distinct) (List.Nodup.of_map _ apart)).mpr same
  · intro one other member among before later
    have left := (byKey_perm first).mem_iff.mp member
    have right := (same other).mpr ((byKey_perm second).mem_iff.mp among)
    exact List.inj_on_of_nodup_map distinct left right (String.toList_inj.mp (le_antisymm before later))

end Sorting

section Canonical

theorem canonical_object (members : List (String × Json)) :
    canonical (.object members) = .object (byKey (members.map (Prod.map id canonical))) := by
  rw [canonical, canonicalMembers_eq]
  rfl

theorem value_object (members : List (String × Json)) :
    value (.object members) = .object fun key => (members.map (Prod.map id value)).lookup key := by
  rw [value, memberValues_eq]

theorem held_canonical {first : Json} (held : first.Held) : first.canonical.Held := by
  induction held with
  | null => exact .null
  | bool truth => exact .bool truth
  | string text => exact .string text
  | number spelled => exact .number spelled
  | array each ih =>
    rw [Json.canonical, canonicalItems_eq]
    apply Held.array
    intro item member
    obtain ⟨original, among, rfl⟩ := List.mem_map.mp member
    exact ih original among
  | @object members distinct each ih =>
    rw [canonical_object]
    apply Held.object
    · rw [((byKey_perm _).map _).nodup_iff, keys_map]
      exact distinct
    · intro member there
      obtain ⟨original, among, rfl⟩ := List.mem_map.mp ((byKey_perm _).mem_iff.mp there)
      exact ih original among

/-- Sorting keeps the value. -/
theorem value_canonical {first : Json} (held : first.Held) : first.canonical.value = first.value := by
  induction held with
  | null | bool truth | string text | number spelled => rfl
  | array each ih =>
    rw [Json.canonical, canonicalItems_eq, value, value, itemValues_eq, itemValues_eq, List.map_map]
    exact congrArg JsonValue.array (List.map_congr_left ih)
  | @object members distinct each ih =>
    rw [canonical_object, value_object, value_object, byKey_map, List.map_map]
    have alike : members.map (Prod.map id value ∘ Prod.map id Json.canonical) = members.map (Prod.map id value) := by
      apply List.map_congr_left
      intro member there
      exact Prod.ext rfl (ih member there)
    rw [alike]
    congr 1
    funext key
    apply lookup_byKey
    rw [keys_map]
    exact distinct

private theorem map_of_map {α β γ : Type} {meaning : α → β} {text : α → γ} {first second : List α}
    (each : ∀ one ∈ first, ∀ other ∈ second, meaning one = meaning other → text one = text other)
    (same : first.map meaning = second.map meaning) : first.map text = second.map text := by
  induction first generalizing second with
  | nil =>
    cases second with
    | nil => rfl
    | cons other second => cases same
  | cons one first ih =>
    cases second with
    | nil => cases same
    | cons other second =>
      rw [List.map_cons, List.map_cons, List.cons.injEq] at same
      rw [List.map_cons, List.map_cons, each one List.mem_cons_self other List.mem_cons_self same.1]
      rw [ih (fun one member other among => each one (List.mem_cons_of_mem _ member) other (List.mem_cons_of_mem _ among))
        same.2]

/-- What one map holds, the other holds under the same key, with an equal value. -/
private theorem member_of_value {members members' : List (String × Json)} (distinct : (members.map (·.1)).Nodup)
    (apart : (members'.map (·.1)).Nodup)
    (same : (fun key => (members.map (Prod.map id value)).lookup key) = fun key => (members'.map (Prod.map id value)).lookup key)
    {key : String} {item : Json} (member : (key, item) ∈ members) :
    ∃ other, (key, other) ∈ members' ∧ item.value = other.value := by
  have found : (members.map (Prod.map id value)).lookup key = some item.value :=
    (lookup_distinct (by rw [keys_map]; exact distinct)).mpr (List.mem_map_of_mem member)
  rw [congrFun same key, lookup_distinct (by rw [keys_map]; exact apart)] at found
  obtain ⟨⟨other, there⟩, among, alike⟩ := List.mem_map.mp found
  obtain ⟨rfl, values⟩ := Prod.mk.inj alike
  exact ⟨there, among, values.symm⟩

/-- Values that are the same are written the same. -/
theorem render_canonical_congr {first second : Json} (held : first.Held) (right : second.Held)
    (same : first.value = second.value) : first.canonical.render = second.canonical.render := by
  induction held generalizing second with
  | null =>
    cases right <;> cases same
    rfl
  | bool truth =>
    cases right <;> cases same
    rfl
  | string text =>
    cases right <;> cases same
    rfl
  | @number numeral spelled =>
    cases right with
    | number _ => exact String.ofList_injective (JsonValue.number.inj same)
    | _ => cases same
  | @array items each ih =>
    cases right with
    | @array items' each' =>
      rw [value, value, itemValues_eq, itemValues_eq, JsonValue.array.injEq] at same
      have texts : items.map (render ∘ Json.canonical) = items'.map (render ∘ Json.canonical) :=
        map_of_map (fun item member other among => ih item member (each' other among)) same
      simp only [Json.canonical, canonicalItems_eq, render, renderItems_eq, List.map_map, texts]
    | _ => cases same
  | @object members distinct each ih =>
    cases right with
    | @object members' distinct' each' =>
      rw [value_object, value_object, JsonValue.object.injEq] at same
      have texts : byKey (members.map (Prod.map id (render ∘ Json.canonical))) =
          byKey (members'.map (Prod.map id (render ∘ Json.canonical))) := by
        apply byKey_congr
        · rw [keys_map]
          exact distinct
        · rw [keys_map]
          exact distinct'
        · intro ⟨key, text⟩
          constructor
          · intro written
            obtain ⟨⟨key, item⟩, member, whole⟩ := List.mem_map.mp written
            obtain ⟨other, among, alike⟩ := member_of_value distinct distinct' same member
            rw [← whole, Prod.map, id, Function.comp, ih _ member (each' _ among) alike]
            exact List.mem_map_of_mem among
          · intro written
            obtain ⟨⟨key, other⟩, among, whole⟩ := List.mem_map.mp written
            obtain ⟨item, member, alike⟩ := member_of_value distinct' distinct same.symm among
            rw [← whole, Prod.map, id, Function.comp, ← ih _ member (each' _ among) alike.symm]
            exact List.mem_map_of_mem member
      rw [canonical_object, canonical_object, render, render, renderMembers_eq, renderMembers_eq, byKey_map, byKey_map,
        List.map_map, List.map_map, show Prod.map id render ∘ Prod.map id Json.canonical =
          (Prod.map id (render ∘ Json.canonical) : String × Json → _) from rfl, texts]
    | _ => cases same

theorem render_inj {first second : Json} (held : first.Held) (right : second.Held)
    (same : first.render = second.render) : first.value = second.value := by
  refine (render_readsOff held second [] [] right trivial trivial ?_).1
  rw [List.append_nil, List.append_nil]
  exact same

theorem render_canonical_iff {first second : Json} (held : first.Held) (right : second.Held) :
    first.canonical.render = second.canonical.render ↔ first.value = second.value := by
  constructor
  · intro same
    rw [← value_canonical held, ← value_canonical right]
    exact render_inj (held_canonical held) (held_canonical right) same
  · exact render_canonical_congr held right

theorem bytes_inj {first second : List Char} : (String.ofList first).toUTF8 = (String.ofList second).toUTF8 ↔ first = second :=
  String.toByteArray_inj.trans ⟨fun same => String.ofList_injective same, fun same => by rw [same]⟩

/-- The envelope, as a value of its own. -/
private def enveloped (tool : String) (args result : Json) : Json :=
  .object [("args", args.canonical), ("result", result.canonical), ("tool", .string tool)]

private theorem held_enveloped {args result : Json} (held : args.Held) (right : result.Held) (tool : String) :
    (enveloped tool args result).Held := by
  apply Held.object
  · change ["args", "result", "tool"].Nodup
    decide
  · simp only [List.forall_mem_cons]
    exact ⟨held_canonical held, held_canonical right, .string tool, by simp⟩

theorem envelope_iff {tool tool' : String} {args args' result result' : Json} (held : args.Held) (heldToo : args'.Held)
    (right : result.Held) (rightToo : result'.Held) :
    EvidenceId.envelope tool args result = EvidenceId.envelope tool' args' result' ↔
      tool = tool' ∧ args.value = args'.value ∧ result.value = result'.value := by
  have texts : EvidenceId.envelope tool args result = EvidenceId.envelope tool' args' result' ↔
      (enveloped tool args result).render = (enveloped tool' args' result').render := bytes_inj
  rw [texts]
  constructor
  · intro same
    have values := render_inj (held_enveloped held right tool) (held_enveloped heldToo rightToo tool') same
    unfold enveloped at values
    rw [value_object, value_object, JsonValue.object.injEq] at values
    have at_key := congrFun values
    have first : some args.canonical.value = some args'.canonical.value := at_key "args"
    have second : some result.canonical.value = some result'.canonical.value := at_key "result"
    have third : some (JsonValue.string tool) = some (JsonValue.string tool') := at_key "tool"
    rw [value_canonical held, value_canonical heldToo] at first
    rw [value_canonical right, value_canonical rightToo] at second
    exact ⟨JsonValue.string.inj (Option.some.inj third), Option.some.inj first, Option.some.inj second⟩
  · rintro ⟨rfl, first, second⟩
    unfold enveloped
    simp only [render, renderMembers, render_canonical_congr held heldToo first, render_canonical_congr right rightToo second]

/-- Equal bytes come of equal values only, and of all of them, and so does the text that an
evidence id is the hash of. -/
theorem write_canonical_iff :
    (∀ first second : Json, first.Held → second.Held →
      (first.writeCanonical = second.writeCanonical ↔ first.value = second.value)) ∧
    ∀ (tool tool' : String) (args args' result result' : Json), args.Held → args'.Held → result.Held → result'.Held →
      (EvidenceId.envelope tool args result = EvidenceId.envelope tool' args' result' ↔
        tool = tool' ∧ args.value = args'.value ∧ result.value = result'.value) :=
  ⟨fun _ _ held right => bytes_inj.trans (render_canonical_iff held right),
    fun _ _ _ _ _ _ held heldToo right rightToo => envelope_iff held heldToo right rightToo⟩

/-- An object in two orders, with a text in it that looks like one. -/
theorem write_canonical_iff_orders :
    (Json.object [("b", .string "\",\"a\":["), ("a", .array [.number (.posInt 1)])]).writeCanonical =
      (Json.object [("a", .array [.number (.posInt 1)]), ("b", .string "\",\"a\":[")]).writeCanonical := by
  have text : Json.Held (.string "\",\"a\":[") := .string _
  have list : Json.Held (.array [.number (.posInt 1)]) := by
    apply Held.array
    simp only [List.forall_mem_cons]
    exact ⟨.number nofun, by simp⟩
  refine (write_canonical_iff.1 _ _ (.object (by decide) ?_) (.object (by decide) ?_)).mpr ?_
  · simp only [List.forall_mem_cons]
    exact ⟨text, list, by simp⟩
  · simp only [List.forall_mem_cons]
    exact ⟨list, text, by simp⟩
  · rw [value_object, value_object]
    congr 1
    funext key
    simp only [List.map_cons, List.map_nil, Prod.map, id, List.lookup_cons, List.lookup_nil]
    by_cases first : key = "a"
    · rw [first]
      rfl
    · rw [show (key == "a") = false from beq_eq_false_iff_ne.mpr first]

end Canonical

end Coral.Proofs

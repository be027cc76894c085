import Mathlib.Algebra.GroupWithZero.Nat
import Mathlib.Data.Char
import Mathlib.Data.List.Basic
import Mathlib.Data.List.Lex

/-! JSON values as `serde_json` holds them, and the compact text it writes for them.
An object is the list of its members in the order they are written. -/

namespace Coral

def u64Max : Nat := 2 ^ 64 - 1

/-- `u64::saturating_add`. -/
def saturatingAdd (first second : UInt64) : UInt64 := .ofNat (min (first.toNat + second.toNat) u64Max)

@[simp] theorem toNat_saturatingAdd (first second : UInt64) :
    (saturatingAdd first second).toNat = min (first.toNat + second.toNat) u64Max := by
  unfold saturatingAdd
  exact UInt64.toNat_ofNat_of_lt' (Nat.lt_of_le_of_lt (Nat.min_le_right ..) (by decide))

theorem toNat_le_u64Max (value : UInt64) : value.toNat ≤ u64Max := Nat.le_pred_of_lt value.toNat_lt

/-- `serde_json::Number`: an unsigned integer, a negative integer, or a float by its text. Two
floats are one if they are printed alike; nothing here is about reading that text again, which
`serde_json` does not always undo. -/
inductive JsonNumber where
  | posInt (value : Nat)
  | negInt (magnitude : Nat)
  | float (text : String)
deriving DecidableEq

inductive Json where
  | null
  | bool (value : Bool)
  | number (value : JsonNumber)
  | string (value : String)
  | array (items : List Json)
  | object (members : List (String × Json))

/-- What `{:?}` writes as code points beyond ASCII: controls, blanks other than the space, marks
of direction and format, private use, and the marks that join the character before them. -/
def escapedBlocks : List (Nat × Nat) :=
  [(0x80, 0xa0), (0xad, 0xad), (0x300, 0x36f), (0x483, 0x489), (0x591, 0x5bd), (0x5bf, 0x5bf), (0x5c1, 0x5c2),
    (0x5c4, 0x5c5), (0x5c7, 0x5c7), (0x600, 0x605), (0x610, 0x61a), (0x61c, 0x61c), (0x64b, 0x65f), (0x670, 0x670),
    (0x6d6, 0x6dd), (0x6df, 0x6e4), (0x6e7, 0x6e8), (0x6ea, 0x6ed), (0x70f, 0x70f), (0x1680, 0x1680), (0x180b, 0x180f),
    (0x1ab0, 0x1ace), (0x1dc0, 0x1dff), (0x2000, 0x200f), (0x2028, 0x202f), (0x205f, 0x206f), (0x20d0, 0x20f0),
    (0x3000, 0x3000), (0x302a, 0x302f), (0x3099, 0x309a), (0xe000, 0xf8ff), (0xfe00, 0xfe0f), (0xfe20, 0xfe2f),
    (0xfeff, 0xfeff), (0xfff0, 0xfffb), (0xfffe, 0xffff), (0xe0000, 0x10ffff)]

/-- `{:?}` of a string. A character that no block names stands for itself, as most letters do;
the marks of single scripts and what is unassigned there are not told apart from them. -/
def debugString (value : String) : String :=
  let escape (char : Char) : List Char :=
    if char = '"' then ['\\', '"']
    else if char = '\\' then ['\\', '\\']
    else if char = '\n' then ['\\', 'n']
    else if char = '\r' then ['\\', 'r']
    else if char = '\t' then ['\\', 't']
    else if char = Char.ofNat 0 then ['\\', '0']
    else if char.toNat < 32 ∨ char.toNat = 127 ∨ (escapedBlocks.any fun (first, last) => first ≤ char.toNat && char.toNat ≤ last) then
      ['\\', 'u', Char.ofNat 123] ++ Nat.toDigits 16 char.toNat ++ [Char.ofNat 125]
    else [char]
  String.ofList (['"'] ++ value.toList.flatMap escape ++ ['"'])

namespace Json

mutual
def beq : Json → Json → Bool
  | .null, .null => true
  | .bool first, .bool second => first == second
  | .number first, .number second => first == second
  | .string first, .string second => first == second
  | .array first, .array second => beqItems first second
  | .object first, .object second => beqMembers first second
  | _, _ => false

def beqItems : List Json → List Json → Bool
  | [], [] => true
  | first :: rest, second :: others => beq first second && beqItems rest others
  | _, _ => false

def beqMembers : List (String × Json) → List (String × Json) → Bool
  | [], [] => true
  | (key, first) :: rest, (other, second) :: others => key == other && beq first second && beqMembers rest others
  | _, _ => false
end

mutual
theorem eq_of_beq : ∀ first second : Json, beq first second = true → first = second
  | .null, second | .bool _, second | .number _, second | .string _, second => by
    cases second <;> simp [beq]
  | .array items, second => by
    cases second with
    | array others => simpa [beq] using eq_of_beqItems items others
    | _ => simp [beq]
  | .object members, second => by
    cases second with
    | object others => simpa [beq] using eq_of_beqMembers members others
    | _ => simp [beq]

theorem eq_of_beqItems : ∀ first second : List Json, beqItems first second = true → first = second
  | [], second => by cases second <;> simp [beqItems]
  | item :: items, second => by
    cases second with
    | nil => simp [beqItems]
    | cons other others =>
      simp only [beqItems, Bool.and_eq_true, List.cons.injEq]
      exact fun same => ⟨eq_of_beq item other same.1, eq_of_beqItems items others same.2⟩

theorem eq_of_beqMembers : ∀ first second : List (String × Json), beqMembers first second = true → first = second
  | [], second => by cases second <;> simp [beqMembers]
  | (key, item) :: items, second => by
    cases second with
    | nil => simp [beqMembers]
    | cons other others =>
      simp only [beqMembers, Bool.and_eq_true, List.cons.injEq, Prod.ext_iff, beq_iff_eq]
      exact fun same => ⟨⟨same.1.1, eq_of_beq item other.2 same.1.2⟩, eq_of_beqMembers items others same.2⟩
end

mutual
theorem beq_refl : ∀ value : Json, beq value value = true
  | .null | .bool _ | .number _ | .string _ => by simp [beq]
  | .array items => by simpa [beq] using beqItems_refl items
  | .object members => by simpa [beq] using beqMembers_refl members

theorem beqItems_refl : ∀ items : List Json, beqItems items items = true
  | [] => rfl
  | item :: items => by simp [beqItems, beq_refl item, beqItems_refl items]

theorem beqMembers_refl : ∀ members : List (String × Json), beqMembers members members = true
  | [] => rfl
  | (_, item) :: members => by simp [beqMembers, beq_refl item, beqMembers_refl members]
end

instance : DecidableEq Json := fun first second =>
  decidable_of_iff (beq first second = true) ⟨eq_of_beq first second, fun same => same ▸ beq_refl first⟩

/-- `Value::get` on an object: the last member of that name, as a map built by insertion holds it. -/
def get? (key : String) : Json → Option Json
  | .object members => (members.reverse.find? (·.1 == key)).map (·.2)
  | _ => none

def asStr : Json → Option String
  | .string value => some value
  | _ => none

/-- The escapes of `serde_json`'s string writer; every other character stands for itself. -/
def escape (char : Char) : List Char :=
  if char = '"' then ['\\', '"']
  else if char = '\\' then ['\\', '\\']
  else if char = '\n' then ['\\', 'n']
  else if char = '\r' then ['\\', 'r']
  else if char = '\t' then ['\\', 't']
  else if char = Char.ofNat 8 then ['\\', 'b']
  else if char = Char.ofNat 12 then ['\\', 'f']
  else if char.toNat < 32 then
    ['\\', 'u', '0', '0', Nat.digitChar (char.toNat / 16), Nat.digitChar (char.toNat % 16)]
  else [char]

def renderString (value : String) : List Char := ['"'] ++ value.toList.flatMap escape ++ ['"']

def renderNumber : JsonNumber → List Char
  | .posInt value => Nat.toDigits 10 value
  | .negInt magnitude => '-' :: Nat.toDigits 10 magnitude
  | .float text => text.toList

mutual
/-- The characters `serde_json::to_vec` encodes. -/
def render : Json → List Char
  | .null => ['n', 'u', 'l', 'l']
  | .bool value => if value then ['t', 'r', 'u', 'e'] else ['f', 'a', 'l', 's', 'e']
  | .number value => renderNumber value
  | .string value => renderString value
  | .array items => ['['] ++ renderItems items ++ [']']
  | .object members => ['{'] ++ renderMembers members ++ ['}']

def renderItems : List Json → List Char
  | [] => []
  | [item] => render item
  | item :: items => render item ++ [','] ++ renderItems items

def renderMembers : List (String × Json) → List Char
  | [] => []
  | [(key, item)] => renderString key ++ [':'] ++ render item
  | (key, item) :: members => renderString key ++ [':'] ++ render item ++ [','] ++ renderMembers members
end

def utf8Length (chars : List Char) : Nat := (chars.map Char.utf8Size).sum

/-- `serde_json::to_vec(value).len()`. -/
def byteLength (value : Json) : Nat := utf8Length value.render

@[simp] theorem utf8Length_nil : utf8Length [] = 0 := rfl

@[simp] theorem utf8Length_append (first second : List Char) :
    utf8Length (first ++ second) = utf8Length first + utf8Length second := by
  simp [utf8Length]

@[simp] theorem utf8Length_cons (char : Char) (chars : List Char) :
    utf8Length (char :: chars) = char.utf8Size + utf8Length chars := rfl

theorem one_le_escape (char : Char) : 1 ≤ utf8Length (escape char) := by
  unfold escape
  repeat' split
  all_goals simp only [utf8Length_cons]
  all_goals exact Nat.le_add_right_of_le (Char.utf8Size_pos _)

theorem length_le_escaped (chars : List Char) : chars.length ≤ utf8Length (chars.flatMap escape) := by
  induction chars with
  | nil => exact Nat.zero_le _
  | cons char chars ih =>
    rw [List.flatMap_cons, utf8Length_append, List.length_cons, Nat.add_comm]
    exact Nat.add_le_add (one_le_escape char) ih

/-- Every character of a text takes a byte at least, whatever is escaped. -/
theorem length_lt_renderString (text : String) : text.toList.length < utf8Length (renderString text) := by
  have escaped := length_le_escaped text.toList
  have quote : utf8Length ['"'] = 1 := rfl
  simp only [renderString, utf8Length_append, quote]
  omega

end Json

end Coral

import Mathlib.Data.List.Basic

/-! SHA-256: a message is padded to blocks of sixteen words, and each block goes through
sixty-four rounds. -/

namespace Coral.Library

namespace Sha256

structure State where
  a : UInt32
  b : UInt32
  c : UInt32
  d : UInt32
  e : UInt32
  f : UInt32
  g : UInt32
  h : UInt32

def initial : State :=
  ⟨0x6a09e667, 0xbb67ae85, 0x3c6ef372, 0xa54ff53a, 0x510e527f, 0x9b05688c, 0x1f83d9ab, 0x5be0cd19⟩

def constants : List UInt32 :=
  [0x428a2f98, 0x71374491, 0xb5c0fbcf, 0xe9b5dba5, 0x3956c25b, 0x59f111f1, 0x923f82a4, 0xab1c5ed5,
    0xd807aa98, 0x12835b01, 0x243185be, 0x550c7dc3, 0x72be5d74, 0x80deb1fe, 0x9bdc06a7, 0xc19bf174,
    0xe49b69c1, 0xefbe4786, 0x0fc19dc6, 0x240ca1cc, 0x2de92c6f, 0x4a7484aa, 0x5cb0a9dc, 0x76f988da,
    0x983e5152, 0xa831c66d, 0xb00327c8, 0xbf597fc7, 0xc6e00bf3, 0xd5a79147, 0x06ca6351, 0x14292967,
    0x27b70a85, 0x2e1b2138, 0x4d2c6dfc, 0x53380d13, 0x650a7354, 0x766a0abb, 0x81c2c92e, 0x92722c85,
    0xa2bfe8a1, 0xa81a664b, 0xc24b8b70, 0xc76c51a3, 0xd192e819, 0xd6990624, 0xf40e3585, 0x106aa070,
    0x19a4c116, 0x1e376c08, 0x2748774c, 0x34b0bcb5, 0x391c0cb3, 0x4ed8aa4a, 0x5b9cca4f, 0x682e6ff3,
    0x748f82ee, 0x78a5636f, 0x84c87814, 0x8cc70208, 0x90befffa, 0xa4506ceb, 0xbef9a3f7, 0xc67178f2]

def rotateRight (word count : UInt32) : UInt32 := (word >>> count) ||| (word <<< (32 - count))

def round (state : State) (constant word : UInt32) : State :=
  let spread := rotateRight state.e 6 ^^^ rotateRight state.e 11 ^^^ rotateRight state.e 25
  let choice := (state.e &&& state.f) ^^^ (~~~state.e &&& state.g)
  let first := state.h + spread + choice + constant + word
  let mixed := rotateRight state.a 2 ^^^ rotateRight state.a 13 ^^^ rotateRight state.a 22
  let majority := (state.a &&& state.b) ^^^ (state.a &&& state.c) ^^^ (state.b &&& state.c)
  ⟨first + mixed + majority, state.a, state.b, state.c, state.d + first, state.e, state.f, state.g⟩

/-- The words of a block and those that follow from them, the last one first. -/
def extend : Nat → List UInt32 → List UInt32
  | 0, words => words
  | count + 1, words =>
    let early := words.getD 14 0
    let late := words.getD 1 0
    let next := (rotateRight late 17 ^^^ rotateRight late 19 ^^^ (late >>> 10)) + words.getD 6 0 +
      (rotateRight early 7 ^^^ rotateRight early 18 ^^^ (early >>> 3)) + words.getD 15 0
    extend count (next :: words)

def rounds : State → List UInt32 → List UInt32 → State
  | state, constant :: constants, word :: words => rounds (round state constant word) constants words
  | state, _, _ => state

def compress (state : State) (block : List UInt32) : State :=
  let last := rounds state constants (extend 48 block.reverse).reverse
  ⟨state.a + last.a, state.b + last.b, state.c + last.c, state.d + last.d, state.e + last.e, state.f + last.f,
    state.g + last.g, state.h + last.h⟩

/-- The big-endian bytes of a number. -/
def bytes : Nat → Nat → List UInt8
  | 0, _ => []
  | count + 1, value => .ofNat (value / 256 ^ count) :: bytes count value

def pad (message : List UInt8) : List UInt8 :=
  message ++ [0x80] ++ List.replicate ((119 - message.length % 64) % 64) 0 ++ bytes 8 (8 * message.length)

def words : List UInt8 → List UInt32
  | first :: second :: third :: fourth :: rest =>
    ((first.toUInt32 <<< 24) ||| (second.toUInt32 <<< 16) ||| (third.toUInt32 <<< 8) ||| fourth.toUInt32) :: words rest
  | _ => []

def blocks : Nat → State → List UInt32 → State
  | 0, state, _ => state
  | count + 1, state, words => blocks count (compress state (words.take 16)) (words.drop 16)

def digest (message : List UInt8) : List UInt8 :=
  let padded := pad message
  let state := blocks (padded.length / 64) initial (words padded)
  [state.a, state.b, state.c, state.d, state.e, state.f, state.g, state.h].flatMap fun word => bytes 4 word.toNat

end Sha256

/-- Two lowercase digits for each byte. -/
def hexDigits (bytes : List UInt8) : List Char :=
  bytes.flatMap fun byte => [Nat.digitChar (byte.toNat / 16), Nat.digitChar (byte.toNat % 16)]

end Coral.Library

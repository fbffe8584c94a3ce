/-
# UTF-8

`encode` writes a text as bytes; `encodePoints` does so for code points and fails at a surrogate,
for which there are no bytes. `decodePart` reads as many whole characters as bytes hold and
gives back the bytes of a character that the end cuts off; `decode` reads bytes that have to hold
whole characters only.

A lead byte says how many bytes follow it and within which bounds the first of them lies, so that no
character has two forms. The bytes of a surrogate are no character; they are refused when the last
of them, or the end, is reached. A fault names the bytes of the character up to the first one that
does not fit.
-/

import Ferrotype.Text.CodePoint

namespace Ferrotype
namespace Text
namespace Utf8

/-! ## Writing -/

/-- The bytes of a character. -/
def encodeChar (c : Char) : List UInt8 :=
  let n := c.toNat
  let tail := fun m => UInt8.ofNat (0x80 + m % 0x40)
  if n < 0x80 then [UInt8.ofNat n]
  else if n < 0x800 then [UInt8.ofNat (0xC0 + n / 0x40), tail n]
  else if n < 0x10000 then [UInt8.ofNat (0xE0 + n / 0x1000), tail (n / 0x40), tail n]
  else [UInt8.ofNat (0xF0 + n / 0x40000), tail (n / 0x1000), tail (n / 0x40), tail n]

/-- The bytes of a text. -/
def encode (text : String) : List UInt8 := text.toList.flatMap encodeChar

/-- Surrogates that keep a text from being written: where the first of them stands, which it is, and
how many stand there in a row. -/
structure Unencodable where
  start : Nat
  first : Surrogate
  count : Nat
deriving Repr, DecidableEq

/-- The text of the error about them. -/
def Unencodable.message (u : Unencodable) : String :=
  "'utf-8' codec can't encode " ++
    (if u.count = 1 then
      "character '\\u" ++ String.ofList (Hexadecimal.padded 4 u.first.code) ++ "' in position " ++
        toString u.start
    else
      "characters in position " ++ toString u.start ++ "-" ++ toString (u.start + u.count - 1)) ++
    ": surrogates not allowed"

/-- The bytes of code points behind `position` others. -/
def encodeFrom (position : Nat) : List CodePoint → Except Unencodable (List UInt8)
  | [] => .ok []
  | .char c :: rest => (encodeFrom (position + 1) rest).map (encodeChar c ++ ·)
  | .surrogate s :: rest => .error ⟨position, s, (rest.takeWhile (·.char?.isNone)).length + 1⟩

/-- The bytes of code points. -/
def encodePoints (points : List CodePoint) : Except Unencodable (List UInt8) := encodeFrom 0 points

/-! ## Reading -/

/-- What is wrong with bytes. -/
inductive Reason
  | badStart | badContinuation | cutOff
deriving Repr, DecidableEq

/-- The words for what is wrong. -/
def Reason.words : Reason → String
  | badStart => "invalid start byte"
  | badContinuation => "invalid continuation byte"
  | cutOff => "unexpected end of data"

/-- Bytes that are no text: from where, how many, the first of them, and why. -/
structure Fault where
  start : Nat
  count : Nat
  first : UInt8
  reason : Reason
deriving Repr, DecidableEq

/-- The text of a fault. -/
def Fault.message (f : Fault) : String :=
  "'utf-8' codec can't decode " ++
    (if f.count = 1 then
      "byte 0x" ++ String.ofList (Hexadecimal.padded 2 f.first.toNat) ++ " in position " ++
        toString f.start
    else
      "bytes in position " ++ toString f.start ++ "-" ++ toString (f.start + f.count - 1)) ++
    ": " ++ f.reason.words

/-- A character of which some bytes have been read. -/
structure Partial where
  /-- The first byte. -/
  first : UInt8
  /-- The bytes after the first one that have been read, the last of them first. -/
  later : List UInt8
  /-- The number that the bytes read so far stand for. -/
  value : Nat
  /-- The number of bytes to come after the next one. -/
  owed : Nat
  /-- The least value of the next byte. -/
  low : Nat
  /-- The greatest value of the next byte. -/
  high : Nat
deriving Repr, DecidableEq

/-- The number of bytes that have been read. -/
def Partial.count (p : Partial) : Nat := p.later.length + 1

/-- The bytes that have been read. -/
def Partial.bytes (p : Partial) : List UInt8 := p.first :: p.later.reverse

/-- Whether the first two bytes of a surrogate have been read. No other character stands for a
number in this range before its last byte. -/
def Partial.isSurrogate (p : Partial) : Bool := 0x360 ≤ p.value && p.value ≤ 0x37F

/-- The fault of a character that goes wrong with its next byte. -/
def Partial.broken (p : Partial) (start : Nat) : Fault :=
  ⟨start, if p.isSurrogate then 1 else p.count, p.first, .badContinuation⟩

/-- The fault of a character that the end cuts off. -/
def Partial.ended (p : Partial) (start : Nat) : Fault :=
  if p.isSurrogate then p.broken start else ⟨start, p.count, p.first, .cutOff⟩

/-- The start of a character of several bytes. -/
def lead? (b : UInt8) : Option Partial :=
  let n := b.toNat
  if n < 0xC2 then none
  else if n < 0xE0 then some ⟨b, [], n - 0xC0, 0, 0x80, 0xBF⟩
  else if n < 0xF0 then some ⟨b, [], n - 0xE0, 1, if n = 0xE0 then 0xA0 else 0x80, 0xBF⟩
  else if n < 0xF5 then
    some ⟨b, [], n - 0xF0, 2, if n = 0xF0 then 0x90 else 0x80, if n = 0xF4 then 0x8F else 0xBF⟩
  else none

/-- The number that a character's bytes stand for with one more byte. -/
def Partial.extend (p : Partial) (b : UInt8) : Nat := p.value * 0x40 + b.toNat % 0x40

/-- A text and the start of a character that the end of the bytes cuts off. -/
structure Decoded where
  text : List Char
  cutOff : Option Partial
deriving Repr, DecidableEq

/-- One more character in front. -/
def Decoded.cons (c : Char) (d : Decoded) : Decoded := ⟨c :: d.text, d.cutOff⟩

/-- The characters of bytes that start in the given state: at a character or inside of one. The
position is the number of bytes before the character at hand. -/
def decodeFrom (position : Nat) : Option Partial → List UInt8 → Except Fault Decoded
  | state, [] => .ok ⟨[], state⟩
  | none, b :: rest =>
    if b.toNat < 0x80 then (decodeFrom (position + 1) none rest).map (.cons (Char.ofNat b.toNat))
    else match lead? b with
      | none => .error ⟨position, 1, b, .badStart⟩
      | some p => decodeFrom position (some p) rest
  | some p, b :: rest =>
    if p.low ≤ b.toNat ∧ b.toNat ≤ p.high ∧ !p.isSurrogate then
      match p.owed with
      | 0 =>
        (decodeFrom (position + p.count + 1) none rest).map (.cons (Char.ofNat (p.extend b)))
      | owed + 1 =>
        decodeFrom position (some ⟨p.first, b :: p.later, p.extend b, owed, 0x80, 0xBF⟩) rest
    else .error (p.broken position)

/-- The characters of bytes, and what is cut off behind them. -/
def decodePart (bytes : List UInt8) : Except Fault Decoded := decodeFrom 0 none bytes

/-- The characters of bytes. -/
def decode (bytes : List UInt8) : Except Fault (List Char) :=
  match decodePart bytes with
  | .error f => .error f
  | .ok d =>
    match d.cutOff with
    | none => .ok d.text
    | some p => .error (p.ended (bytes.length - p.count))

end Utf8
end Text
end Ferrotype

/-
# Code points

A text consists of characters. A literal may also name a surrogate by an escape: a code point that
is no character. It stays one even next to its other half, and no bytes stand for it in UTF-8.

Texts are read and translated as characters. For a surrogate a *stand-in* is read, a character for
private use, which is like the surrogate in all that is asked of a character on the way: it is no
letter, no digit and no blank, and it does not print. A text is read twice, with two choices of
stand-ins, and `codePoints` lays the two readings over each other. What they agree on is a
character, even where it is one of the stand-ins; where they differ there is a surrogate.

A surrogate that is written by its number, in four hexadecimal digits, comes out as the numbers of
its stand-ins. These agree in their last two digits, and the first two tell what they were.
-/

import Ferrotype.Text.Hexadecimal

namespace Ferrotype
namespace Text

/-- A surrogate, by its place among them. -/
abbrev Surrogate := Fin 0x800

/-- The number of a surrogate. -/
def Surrogate.code (s : Surrogate) : Nat := 0xD800 + s.val

/-- The surrogate with a number. -/
def Surrogate.ofCode (n : Nat) : Surrogate := Fin.ofNat 0x800 n

/-- A code point of a text. -/
inductive CodePoint
  | char (c : Char)
  /-- A surrogate, which is no character. -/
  | surrogate (s : Surrogate)
deriving Repr, DecidableEq

namespace CodePoint

/-- The code point with a number. -/
def ofNat (n : Nat) : CodePoint :=
  if 0xD800 ≤ n ∧ n < 0xE000 then surrogate (.ofCode n) else char (Char.ofNat n)

/-- The character that a code point is, if it is one. -/
def char? : CodePoint → Option Char
  | char c => some c
  | surrogate _ => none

end CodePoint

/-- The characters among code points. -/
def characters (points : List CodePoint) : String :=
  String.ofList (points.filterMap CodePoint.char?)

/-! ## Readings -/

/-- A choice of characters that are read for the surrogates. -/
class StandIn where
  char : Surrogate → Char

namespace StandIn

/-- The stand-ins of the first reading: `d8` becomes `e8`, and so on up to `df`, which becomes
`ef`. -/
@[reducible] def first : StandIn := ⟨fun s => Char.ofNat (0xE800 + s.val)⟩

/-- The stand-ins of the second reading: `d8` becomes `f0`, and so on up to `df`, which becomes
`f7`. -/
@[reducible] def second : StandIn := ⟨fun s => Char.ofNat (0xF000 + s.val)⟩

end StandIn

/-- A text is read with the first stand-ins where nothing else is said. -/
instance : StandIn := .first

/-- The character that is read for a code point. -/
def CodePoint.read [StandIn] : CodePoint → Char
  | char c => c
  | surrogate s => StandIn.char s

/-- The code point where the two readings have these characters. Where they have different digits,
a surrogate is written by its number: its first digit is `d`, the others are those of the first
reading. -/
def CodePoint.ofReadings (a b : Char) : CodePoint :=
  if a = b then .char a
  else if a.toNat < 0x80 then .char (if b = 'f' then 'd' else a)
  else .surrogate (.ofCode a.toNat)

/-- The code points of a text with the given readings. -/
def codePoints (a b : String) : List CodePoint :=
  List.zipWith CodePoint.ofReadings a.toList b.toList

end Text
end Ferrotype

/-
# String literals in double quotes

A literal stands between double quotes. The quote, the backslash and the control characters are
escaped; `literal` leaves every other character as it is, `asciiLiteral` also escapes what lies
outside the printable ASCII range, as UTF-16 units.
-/

import Ferrotype.Text.Hexadecimal

namespace Ferrotype
namespace Text

/-- The UTF-16 units of a character: one, or a high and a low surrogate. -/
def units16 (c : Char) : List Nat :=
  if c.toNat < 0x10000 then [c.toNat]
  else [0xD800 + (c.toNat - 0x10000) / 0x400, 0xDC00 + (c.toNat - 0x10000) % 0x400]

/-- A unit as a backslash, a `u` and four hexadecimal digits. -/
def unitEscape (unit : Nat) : List Char := '\\' :: 'u' :: Hexadecimal.padded 4 unit

/-- A character inside a literal; `plain` says which characters may stand for themselves. -/
def literalChar (plain : Char → Bool) (c : Char) : List Char :=
  if c = '"' then ['\\', '"']
  else if c = '\\' then ['\\', '\\']
  else if plain c then [c]
  else if c = '\n' then ['\\', 'n']
  else if c = '\r' then ['\\', 'r']
  else if c = '\t' then ['\\', 't']
  else if c = '\x08' then ['\\', 'b']
  else if c = '\x0c' then ['\\', 'f']
  else (units16 c).flatMap unitEscape

/-- A text between quotes, its characters written by `literalChar`. -/
def literalWith (plain : Char → Bool) (text : String) : String :=
  String.ofList ('"' :: (text.toList.flatMap (literalChar plain) ++ ['"']))

/-- The literal of a text in which only quotes, backslashes and controls are escaped. -/
def literal (text : String) : String := literalWith (fun c => decide (' ' ≤ c)) text

/-- The literal of a text in printable ASCII characters alone. -/
def asciiLiteral (text : String) : String :=
  literalWith (fun c => decide (' ' ≤ c) && decide (c ≤ '~')) text

end Text
end Ferrotype

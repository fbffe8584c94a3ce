/-
# Texts quoted inside a message

A message shows a text between single quotes, or between double quotes when the text holds a single
quote and no double one. Characters that do not print are written as escapes with two, four or
eight hexadecimal digits.
-/

import Ferrotype.Text.Hexadecimal
import Ferrotype.Unicode.Printable

namespace Ferrotype
namespace Text
namespace Quoted

/-- The quote that surrounds a text. -/
def mark (cs : List Char) : Char :=
  if cs.contains '\'' && !cs.contains '"' then '"' else '\''

/-- A character that does not print, by its code point. -/
def escape (c : Char) : List Char :=
  if c.toNat < 0x100 then '\\' :: 'x' :: Hexadecimal.padded 2 c.toNat
  else if c.toNat < 0x10000 then '\\' :: 'u' :: Hexadecimal.padded 4 c.toNat
  else '\\' :: 'U' :: Hexadecimal.padded 8 c.toNat

/-- A character between quotes. -/
def quotedChar (quote c : Char) : List Char :=
  if c = quote ∨ c = '\\' then ['\\', c]
  else if c = '\t' then ['\\', 't']
  else if c = '\n' then ['\\', 'n']
  else if c = '\r' then ['\\', 'r']
  else if Unicode.isPrintable c then [c]
  else escape c

/-- A text between quotes. -/
def quoted (cs : List Char) : List Char :=
  mark cs :: (cs.flatMap (quotedChar (mark cs)) ++ [mark cs])

end Quoted

/-- The first characters of a quoted text, as far as a message shows it. -/
def shown (cs : List Char) : String := String.ofList ((Quoted.quoted cs).take 200)

end Text
end Ferrotype

/-
# Property keys

A name that is an identifier in ASCII characters is a key as it stands; any other name is written
as a string literal in ASCII characters. One line feed at the end of a name does not count against
it.
-/

import Ferrotype.Text.Literal

namespace Ferrotype
namespace TypeScript

/-- Whether a plain key can start with a character. -/
def startsKey (c : Char) : Bool := c.isAlpha || c == '_' || c == '$'

/-- Whether a plain key can go on with a character. -/
def continuesKey (c : Char) : Bool := c.isAlphanum || c == '_' || c == '$'

/-- Whether a text consists of characters of a plain key, but for a line feed at its end. -/
def isKeyTail : List Char → Bool
  | [] => true
  | ['\n'] => true
  | c :: cs => continuesKey c && isKeyTail cs

/-- Whether a name is a key as it stands. -/
def isPlainKey : List Char → Bool
  | [] => false
  | c :: cs => startsKey c && isKeyTail cs

/-- The key that denotes a name. -/
def propertyKey (name : String) : String :=
  if isPlainKey name.toList then name else Text.asciiLiteral name

end TypeScript
end Ferrotype

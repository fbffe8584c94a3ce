/-
# White space

The separators of every script and the control characters that move the position. Text is trimmed
and split into words on this set; the layout of source text uses a smaller one.
-/

import Ferrotype.Unicode.CodeSet

namespace Ferrotype
namespace Unicode

/-- The boundaries of the white space. -/
def blankBounds : List Nat := [
    9, 14, 28, 33, 133, 134, 160, 161, 5760, 5761, 8192, 8203, 8232, 8234, 8239, 8240, 8287, 8288,
    12288, 12289]

/-- Whether a character is white space. -/
def isBlank (c : Char) : Bool := within blankBounds c.toNat

/-- A text without the white space at its end. -/
def trimEnd (cs : List Char) : List Char := (cs.reverse.dropWhile isBlank).reverse

/-- A text without the white space at its start. -/
def trimStart (cs : List Char) : List Char := cs.dropWhile isBlank

/-- A text without the white space at its ends. -/
def trim (cs : List Char) : List Char := trimEnd (trimStart cs)

end Unicode
end Ferrotype

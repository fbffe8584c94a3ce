/-
# Hexadecimal numbers

`padded` writes a number with a fixed count of digits. `read?` reads an integer the generous way:
blanks around it, one sign, a `0x` before the digits and single underscores between digits are
accepted, and so are the decimal digits of every script.
-/

import Ferrotype.Unicode.Blank
import Ferrotype.Unicode.Digit

namespace Ferrotype
namespace Text
namespace Hexadecimal

/-- The digit with a value below sixteen. -/
def digit (n : Nat) : Char := if n < 10 then Char.ofNat (48 + n) else Char.ofNat (87 + n)

/-- The last `width` digits of a number. -/
def padded : Nat → Nat → List Char
  | 0, _ => []
  | width + 1, n => padded width (n / 16) ++ [digit (n % 16)]

/-- A number is filled up to its width. -/
@[simp] theorem length_padded (width n : Nat) : (padded width n).length = width := by
  induction width generalizing n with
  | zero => rfl
  | succ width ih => simp [padded, ih]

/-- The value of a hexadecimal digit. -/
def value? (c : Char) : Option Nat :=
  if '0' ≤ c ∧ c ≤ '9' then some (c.toNat - 48)
  else if 'a' ≤ c ∧ c ≤ 'f' then some (c.toNat - 87)
  else if 'A' ≤ c ∧ c ≤ 'F' then some (c.toNat - 55)
  else none

/-- The number written by digits with single underscores between them, after a first part with
value `acc`. -/
def digitsFrom? (acc : Nat) : List Char → Option Nat
  | [] => some acc
  | '_' :: c :: rest =>
    match value? c with
    | some d => digitsFrom? (16 * acc + d) rest
    | none => none
  | c :: rest =>
    match value? c with
    | some d => digitsFrom? (16 * acc + d) rest
    | none => none

/-- The number written by at least one digit. -/
def digits? : List Char → Option Nat
  | [] => none
  | c :: rest => (value? c).bind (digitsFrom? · rest)

/-- The number written by digits, which an optional `0x` and one underscore may precede. -/
def natural? : List Char → Option Nat
  | '0' :: x :: '_' :: rest =>
    if x = 'x' ∨ x = 'X' then digits? rest else digits? ('0' :: x :: '_' :: rest)
  | '0' :: x :: rest => if x = 'x' ∨ x = 'X' then digits? rest else digits? ('0' :: x :: rest)
  | cs => digits? cs

/-- The number written with an optional sign. -/
def signed? : List Char → Option Int
  | '+' :: rest => (natural? rest).map Int.ofNat
  | '-' :: rest => (natural? rest).map (- Int.ofNat ·)
  | cs => (natural? cs).map Int.ofNat

/-- The blanks that may surround a number: the space and the characters from tab to carriage
return. -/
def isMargin (c : Char) : Bool := c == ' ' || (9 ≤ c.toNat && c.toNat ≤ 13)

/-- A character beyond the basic ones as the blank or digit it stands for. -/
def basic? (c : Char) : Option Char :=
  if c.toNat < 127 then some c
  else if Unicode.isBlank c then some ' '
  else (Unicode.decimal? c).map fun d => Char.ofNat (48 + d)

/-- A text in basic characters; a text that is basic already is taken as it is. -/
def basicText? (cs : List Char) : Option (List Char) :=
  if cs.all (·.toNat < 128) then some cs else cs.mapM basic?

/-- The integer that a text denotes. -/
def read? (cs : List Char) : Option Int :=
  (basicText? cs).bind fun text =>
    signed? ((text.dropWhile isMargin).reverse.dropWhile isMargin).reverse

end Hexadecimal
end Text
end Ferrotype

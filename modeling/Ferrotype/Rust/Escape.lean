/-
# The text of a literal

`unquote` takes the quotes off a string or character literal and resolves its escapes. An escape by
code point can fail in two ways: its text is not a hexadecimal number, or the number is no code
point. A surrogate is a code point; its stand-in is read for it. Every other backslash gives the
character after it; a backslash before a line feed skips the layout at the start of the next line.

A `\u` escape ends behind its closing brace. Where there is none, the reading goes on at the start
of the literal, so it comes to the same escape again and again: it never ends, unless something in
the literal is refused.
-/

import Ferrotype.Text.CodePoint
import Ferrotype.Text.Quoted

namespace Ferrotype
namespace Rust

/-- Why a literal has no text. -/
inductive EscapeError
  /-- The digits of an escape are not a hexadecimal number. -/
  | notHexadecimal (digits : List Char)
  /-- The number of an escape is no code point. -/
  | notCodePoint
  /-- The number of an escape does not even fit 32 bits. -/
  | tooLarge
  /-- A `\u` escape has a code point, but no closing brace: the reading never ends. -/
  | endless
deriving Repr, DecidableEq

namespace EscapeError

/-- The text of an error. A reading that never ends raises none, so it has no text to be told. -/
def message : EscapeError → String
  | notHexadecimal digits => "invalid literal for int() with base 16: " ++ Text.shown digits
  | notCodePoint => "chr() arg not in range(0x110000)"
  | tooLarge => "Python int too large to convert to C int"
  | endless => ""

end EscapeError

namespace Escape

/-- The character of an escape with one letter. -/
def ofLetter? : Char → Option Char
  | 'n' => some '\n'
  | 't' => some '\t'
  | 'r' => some '\r'
  | '0' => some '\x00'
  | '\\' => some '\\'
  | '"' => some '"'
  | '\'' => some '\''
  | _ => none

/-- The character with a code point, or the stand-in of a surrogate. -/
def ofCodePoint [Text.StandIn] (n : Nat) : Char := (Text.CodePoint.ofNat n).read

/-- The character whose code point is written in hexadecimal. -/
def codePoint [Text.StandIn] (digits : List Char) : Except EscapeError Char :=
  match Text.Hexadecimal.read? digits with
  | none => .error (.notHexadecimal digits)
  | some n =>
    if 0x80000000 ≤ n ∨ n < -0x80000000 then .error .tooLarge
    else if n < 0 ∨ 0x110000 ≤ n then .error .notCodePoint
    else .ok (ofCodePoint n.toNat)

/-- The digits between the braces of a `\u` escape, without underscores, and what follows. Without
a closing brace the digits are the rest but for its last character. -/
def braced (cs : List Char) : List Char × Option (List Char) :=
  match cs.dropWhile (· != '}') with
  | [] => (cs.dropLast.filter (· != '_'), none)
  | _ :: rest => ((cs.takeWhile (· != '}')).filter (· != '_'), some rest)

/-- Behind an escape in braces no more is left. -/
theorem length_le_of_braced {cs rest : List Char} (h : (braced cs).2 = some rest) :
    rest.length ≤ cs.length := by
  unfold braced at h
  have hlen := (List.dropWhile_sublist (· != '}') (l := cs)).length_le
  split at h
  · simp at h
  · rename_i hdrop
    rw [hdrop] at hlen
    simp only [Option.some.injEq] at h
    subst h
    simp only [List.length_cons] at hlen
    omega

/-- Whether a character is skipped behind a backslash at the end of a line. -/
def isLayout (c : Char) : Bool := c == ' ' || c == '\t' || c == '\r' || c == '\n'

/-- A text with its escapes resolved. -/
def resolve [Text.StandIn] : List Char → Except EscapeError (List Char)
  | [] => .ok []
  | ['\\'] => .ok ['\\']
  | '\\' :: e :: rest =>
    match ofLetter? e with
    | some c => (resolve rest).map (c :: ·)
    | none =>
      if e = 'u' ∧ rest.head? = some '{' then
        (codePoint (braced (rest.drop 1)).1).bind fun c =>
          match _h : (braced (rest.drop 1)).2 with
          | some after => (resolve after).map (c :: ·)
          | none => .error .endless
      else if e = 'x' then
        (codePoint (rest.take 2)).bind fun c => (resolve (rest.drop 2)).map (c :: ·)
      else if e = '\n' then resolve (rest.dropWhile isLayout)
      else (resolve rest).map (e :: ·)
  | c :: rest => (resolve rest).map (c :: ·)
termination_by cs => cs.length
decreasing_by
  all_goals simp only [List.length_cons]
  · omega
  · have hle := length_le_of_braced _h
    simp only [List.length_drop] at hle
    omega
  · simp only [List.length_drop]
    omega
  · have hle := (List.dropWhile_sublist isLayout (l := rest)).length_le
    omega
  · omega
  · omega

/-- A literal without its quotes; other text is left alone. -/
def stripQuotes (cs : List Char) : List Char :=
  match cs with
  | quote :: rest =>
    if (quote = '"' ∨ quote = '\'') ∧ rest.getLast? = some quote then rest.dropLast else cs
  | [] => []

end Escape

/-- The text that a string or character literal stands for. -/
def unquote [Text.StandIn] (value : String) : Except EscapeError String :=
  (Escape.resolve (Escape.stripQuotes value.toList)).map String.ofList

end Rust
end Ferrotype

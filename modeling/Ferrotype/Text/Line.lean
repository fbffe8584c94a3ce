/-
# Lines

A line ends at a line feed, at a carriage return, or at the two in this order. `unifyBreaks` writes
each of them as one line feed.

`Utf8.firstLine` reads the first line of bytes without reading all of them: bytes come in blocks of
a fixed size, and no block is read after the one in which the line ends. A fault behind the line
therefore counts only in a block that was read, and its position counts from the start of its block,
or of the character that the block before cut off. A carriage return at the end of a block ends the
line only when the next block is there, since a line feed may follow.
-/

import Ferrotype.Text.Utf8

namespace Ferrotype
namespace Text

/-- A text with a line feed for each break between lines. -/
def unifyBreaks : List Char → List Char
  | [] => []
  | '\r' :: '\n' :: rest => '\n' :: unifyBreaks rest
  | c :: rest => (if c = '\r' then '\n' else c) :: unifyBreaks rest

/-- Whether a character ends a line. -/
def isBreak (c : Char) : Bool := c == '\n' || c == '\r'

/-- The first line of a text, without its break. -/
def firstLine (text : List Char) : List Char := text.takeWhile (!isBreak ·)

/-- Whether a text with more behind it has a whole line in it. -/
def endsLine : List Char → Bool
  | [] => false
  | [c] => c == '\n'
  | c :: rest => isBreak c || endsLine rest

namespace Utf8

/-- The number of bytes in a block. -/
def blockSize : Nat := 8192

/-- The first line of a text of which the given start has been read already. -/
def firstLineFrom (text : List Char) (pending bytes : List UInt8) : Except Fault (List Char) :=
  match bytes with
  | [] => (decode pending).map fun _ => firstLine text
  | b :: rest =>
    match decodePart (pending ++ (b :: rest).take blockSize) with
    | .error f => .error f
    | .ok d =>
      if endsLine (text ++ d.text) then .ok (firstLine (text ++ d.text))
      else
        firstLineFrom (text ++ d.text) ((d.cutOff.map Partial.bytes).getD [])
          ((b :: rest).drop blockSize)
termination_by bytes.length
decreasing_by
  simp only [blockSize, List.length_drop, List.length_cons]
  omega

/-- The first line of bytes, without its break. -/
def firstLine (bytes : List UInt8) : Except Fault (List Char) := firstLineFrom [] [] bytes

end Utf8
end Text
end Ferrotype

/-
# Flags

A flag is a dash with one letter or two dashes with a word; the word may be cut short as long as it
is that of one flag only. The value of a flag follows in the next argument or, in the same one,
after an equals sign; behind a letter the equals sign may be missing. What is attached to the letter
of a flag without value, with an equals sign or without, is read as more letters.

`Mark.of` says what an argument is by its own text. An argument that looks like a flag but is
none stands for itself if it is a negative number or holds a blank.
-/

import Ferrotype.Text.Pieces
import Ferrotype.Unicode.Digit

namespace Ferrotype
namespace CommandLine

/-- A flag of the program. -/
inductive Flag
  | help | input | output | debug | constEnums | config
deriving Repr, DecidableEq

namespace Flag

/-- All flags, in the order in which messages name them. -/
def all : List Flag := [help, input, output, debug, constEnums, config]

/-- The spellings of a flag. -/
def spellings : Flag → List String
  | help => ["-h", "--help"]
  | input => ["-i", "--input"]
  | output => ["-o", "--output"]
  | debug => ["-d", "--debug"]
  | constEnums => ["--enable-const-enums"]
  | config => ["-c", "--config"]

/-- The name of a flag in messages. -/
def title (f : Flag) : String := Text.join "/" f.spellings

/-- Whether a flag has a value. -/
def takesValue : Flag → Bool
  | input | output | config => true
  | help | debug | constEnums => false

/-- Each spelling with its flag. -/
def spelled : List (String × Flag) := all.flatMap fun f => f.spellings.map (·, f)

/-- The flag with a spelling. -/
def ofSpelling? (text : List Char) : Option Flag := spelled.lookup (String.ofList text)

/-- The flag with a letter. -/
def ofLetter? (c : Char) : Option Flag := ofSpelling? ['-', c]

/-- The spellings that a cut word may stand for, with their flags. -/
def candidates (word : List Char) : List (String × Flag) :=
  spelled.filter fun (spelling, _) => word.isPrefixOf spelling.toList

end Flag

/-- What an argument is. -/
inductive Mark
  /-- A value, or an argument that nothing takes. -/
  | plain
  /-- The two dashes after which no argument is a flag. -/
  | separator
  /-- A flag, by its letter or by its word, and the text attached to it. -/
  | flag (f : Flag) (byLetter : Bool) (attached : Option (List Char))
  /-- A flag that does not exist. -/
  | unknown
deriving Repr, DecidableEq

/-- A word that several flags have in common. -/
structure Ambiguity where
  argument : String
  candidates : List String
deriving Repr, DecidableEq

/-- Whether a text is a negative number; a line feed may follow it. -/
def isNegativeNumber (text : List Char) : Bool :=
  let number := if text.getLast? = some '\n' then text.dropLast else text
  let isDigit := fun c => (Unicode.decimal? c).isSome
  match number with
  | '-' :: digits =>
    match digits.dropWhile isDigit with
    | [] => !digits.isEmpty
    | c :: fraction => c == '.' && !fraction.isEmpty && fraction.all isDigit
  | _ => false

/-- A text up to its first equals sign, and what follows the sign, if there is one. -/
def cutAtEquals (text : List Char) : List Char × Option (List Char) :=
  let word := text.takeWhile (· ≠ '=')
  match text.dropWhile (· ≠ '=') with
  | [] => (word, none)
  | _ :: value => (word, some value)

namespace Mark

/-- What an argument is that starts like a flag but is none. -/
def ofOther (text : List Char) : Mark :=
  if isNegativeNumber text || text.contains ' ' then plain else unknown

/-- What an argument is that starts with two dashes. -/
def ofWord (text : List Char) : Except Ambiguity Mark :=
  match Flag.candidates (cutAtEquals text).1 with
  | [] => .ok (ofOther text)
  | [(_, f)] => .ok (flag f false (cutAtEquals text).2)
  | several => .error ⟨String.ofList text, several.map (·.1)⟩

/-- What an argument is that starts with a dash and a character that is none. -/
def ofLetters (c : Char) (rest : List Char) : Mark :=
  match Flag.ofLetter? c with
  | some f => flag f true (some rest)
  | none => ofOther ('-' :: c :: rest)

/-- What an argument is, when no separator stands before it. -/
def of (text : List Char) : Except Ambiguity Mark :=
  match text with
  | '-' :: c :: rest =>
    match Flag.ofSpelling? text with
    | some f => .ok (flag f (c ≠ '-') none)
    | none =>
      match Flag.ofSpelling? (cutAtEquals text).1 with
      | some f => .ok (flag f (c ≠ '-') (cutAtEquals text).2)
      | none => if c = '-' then ofWord text else .ok (ofLetters c rest)
  | _ => .ok plain

end Mark

end CommandLine
end Ferrotype

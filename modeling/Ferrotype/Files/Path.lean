/-
# Paths

A path is a start and the names that follow it. Empty names and single dots are dropped when a path
is read, so that `./a`, `a/` and `.//a` are one path; two dots are kept, since what they lead to
depends on the files that there are. A path starts where the program runs, or at the root, which two
slashes also name but not in the same words.
-/

import Ferrotype.Text.Pieces
import Ferrotype.Unicode.CaseMap

namespace Ferrotype
namespace Files

/-- Where a path starts. -/
inductive Start
  | here | root | doubleRoot
deriving Repr, DecidableEq

/-- The text of a start. -/
def Start.text : Start → String
  | here => ""
  | root => "/"
  | doubleRoot => "//"

/-- A path: its start and the names after it. -/
structure Path where
  start : Start
  names : List String
deriving Repr, DecidableEq

namespace Path

/-- The start that a text gives. -/
def startOf : List Char → Start
  | '/' :: '/' :: '/' :: _ => .root
  | '/' :: '/' :: _ => .doubleRoot
  | '/' :: _ => .root
  | _ => .here

/-- The names in a text. -/
def namesOf (text : List Char) : List String :=
  ((Text.splitAt '/' text).filter fun name => name ≠ [] ∧ name ≠ ['.']).map String.ofList

/-- The path that a text names. -/
def ofText (text : String) : Path := ⟨startOf text.toList, namesOf text.toList⟩

/-- The text of a path. -/
def text (p : Path) : String :=
  if p.start = .here ∧ p.names = [] then "." else p.start.text ++ Text.join "/" p.names

/-- The path of what lies further down. -/
def below (p : Path) (names : List String) : Path := ⟨p.start, p.names ++ names⟩

/-- The path without its last name. -/
def parent (p : Path) : Path := ⟨p.start, p.names.dropLast⟩

end Path

/-- The characters of a name after its last dot, if there are characters on both sides of it. -/
def suffix? (name : String) : Option (List Char) :=
  let reversed := name.toList.reverse
  let suffix := (reversed.takeWhile (· ≠ '.')).reverse
  let stem := (reversed.dropWhile (· ≠ '.')).drop 1
  if suffix = [] ∨ stem = [] then none else some suffix

/-- Whether a name is that of a Rust file. The case of the suffix does not matter. -/
def isRustName (name : String) : Bool :=
  (suffix? name).map Unicode.lower = some ['r', 's']

end Files
end Ferrotype

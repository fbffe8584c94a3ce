/-
# Documentation comments

No lines give no comment, one line gives a comment on one line, and several lines give a block with
a star before each. A delimiter that would close the comment inside a line is broken by a
backslash.
-/

import Ferrotype.Text.Pieces

namespace Ferrotype
namespace TypeScript

/-- A line with every closing delimiter broken. -/
def escapeLine : List Char → List Char
  | [] => []
  | '*' :: '/' :: cs => '*' :: '\\' :: '/' :: escapeLine cs
  | c :: cs => c :: escapeLine cs

/-- A line of documentation as it stands in a comment. -/
def commentLine (line : String) : String := String.ofList (escapeLine line.toList)

/-- A line of a comment block behind its indentation. -/
def blockLine (line : String) : String :=
  if (commentLine line).isEmpty then " *\n" else " * " ++ commentLine line ++ "\n"

/-- A comment at an indentation. -/
def renderComment (indentation : Nat) (lines : List String) : String :=
  let margin := Text.spaces indentation
  match lines with
  | [] => ""
  | [line] => margin ++ "/** " ++ commentLine line ++ " */\n"
  | lines =>
    margin ++ "/**\n" ++ Text.concat (lines.map fun line => margin ++ blockLine line) ++
      margin ++ " */\n"

@[simp] theorem renderComment_nil (indentation : Nat) : renderComment indentation [] = "" := rfl

end TypeScript
end Ferrotype

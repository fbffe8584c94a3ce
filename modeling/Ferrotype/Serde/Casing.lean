/-
# Casing policies

A policy turns the name of a field or a variant into another casing. The name is cut into words at
underscores, dashes and white space, and where the case changes: between a small letter or digit
and a capital, and before the last capital of a run that a small letter follows, so that
`HTTPServer` is `HTTP` and `Server`. Only ASCII letters change the word; upper and lower case are
those of all scripts.

The two policies of a single case do not cut: they change every letter of the name.
-/

import Ferrotype.Unicode.Blank
import Ferrotype.Unicode.CaseMap

namespace Ferrotype
namespace Serde

/-- A casing policy. -/
inductive Casing
  | lower | upper | pascal | camel | snake | screamingSnake | kebab | screamingKebab
deriving Repr, DecidableEq

namespace Casing

/-- All policies. -/
def all : List Casing :=
  [lower, upper, pascal, camel, snake, screamingSnake, kebab, screamingKebab]

/-- How a policy is written in an attribute. -/
def spelling : Casing → String
  | lower => "lowercase"
  | upper => "UPPERCASE"
  | pascal => "PascalCase"
  | camel => "camelCase"
  | snake => "snake_case"
  | screamingSnake => "SCREAMING_SNAKE_CASE"
  | kebab => "kebab-case"
  | screamingKebab => "SCREAMING-KEBAB-CASE"

/-- The policy with a spelling. -/
def ofSpelling? (text : String) : Option Casing := all.find? (·.spelling == text)

/-- Reading a spelling gives the policy back. -/
theorem ofSpelling?_spelling (c : Casing) : ofSpelling? c.spelling = some c := by
  cases c <;> decide

end Casing

/-! ## Words -/

/-- Whether a character separates words. -/
def isSeparator (c : Char) : Bool := c == '_' || c == '-' || Unicode.isBlank c

/-- Whether a new word starts at `c`, given the character before it and the one after it. -/
def startsWord (before c : Char) (after : Option Char) : Bool :=
  c.isUpper && (before.isLower || before.isDigit || before.isUpper && after.any Char.isLower)

/-- The words of a text without separators, where `word` has been read of the first one, in
reverse. -/
def chunkWords : List Char → List Char → List (List Char)
  | word, [] => [word.reverse]
  | word, c :: cs =>
    match word with
    | before :: _ =>
      if startsWord before c cs.head? then word.reverse :: chunkWords [c] cs
      else chunkWords (c :: word) cs
    | [] => chunkWords [c] cs

/-- The parts of a text between separators, where `chunk` has been read of the first one, in
reverse. Parts may be empty. -/
def chunks : List Char → List Char → List (List Char)
  | chunk, [] => [chunk.reverse]
  | chunk, c :: cs =>
    if isSeparator c then chunk.reverse :: chunks [] cs else chunks (c :: chunk) cs

/-- The words of a name. -/
def words (name : List Char) : List (List Char) :=
  ((chunks [] name).filter (!·.isEmpty)).flatMap (chunkWords [])

/-! ## Policies on names -/

/-- Words with a character between neighbours. -/
def joinWith (sep : Char) : List (List Char) → List Char
  | [] => []
  | [word] => word
  | word :: more => word ++ sep :: joinWith sep more

namespace Casing

/-- A name made of words in lower case. -/
def ofWords : Casing → List (List Char) → List Char
  | lower, ws => ws.flatten
  | upper, ws => Unicode.upper ws.flatten
  | pascal, ws => ws.flatMap Unicode.capitalize
  | camel, [] => []
  | camel, w :: ws => w ++ ws.flatMap Unicode.capitalize
  | snake, ws => joinWith '_' ws
  | screamingSnake, ws => Unicode.upper (joinWith '_' ws)
  | kebab, ws => joinWith '-' ws
  | screamingKebab, ws => Unicode.upper (joinWith '-' ws)

/-- A name under a policy. A name without words stays as it is. -/
def applyChars (c : Casing) (name : List Char) : List Char :=
  match c with
  | lower => Unicode.lower name
  | upper => Unicode.upper name
  | _ =>
    if (words name).isEmpty then name else c.ofWords ((words name).map Unicode.lower)

/-- A name under a policy. -/
def apply (c : Casing) (name : String) : String := String.ofList (c.applyChars name.toList)

end Casing

/-- A name under a policy, if there is one. -/
def recase (policy : Option Casing) (name : String) : String :=
  match policy with
  | none => name
  | some c => c.apply name

@[simp] theorem recase_none (name : String) : recase none name = name := rfl

end Serde
end Ferrotype

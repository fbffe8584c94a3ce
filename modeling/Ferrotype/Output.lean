/-
# The output of a run

Text is appended in pieces; what could not be translated is listed beside it.
-/

import Ferrotype.TypeScript.Comment

namespace Ferrotype

/-- The text of a run so far, and what could not be translated. -/
structure Output where
  pieces : List String
  unprocessed : List String
deriving Repr, DecidableEq

namespace Output

/-- The output of nothing. -/
def empty : Output := ⟨[], []⟩

instance : Inhabited Output := ⟨empty⟩

/-- The text so far. -/
def text (o : Output) : String := Text.concat o.pieces

/-- The output with one more piece of text. -/
def push (o : Output) (piece : String) : Output := { o with pieces := o.pieces ++ [piece] }

/-- The output with a comment; without lines there is none. -/
def pushComment (o : Output) (indentation : Nat) (lines : List String) : Output :=
  let comment := TypeScript.renderComment indentation lines
  if comment.isEmpty then o else o.push comment

/-- The output with more that could not be translated. -/
def leaveOut (o : Output) (items : List String) : Output :=
  { o with unprocessed := o.unprocessed ++ items }

/-- A text that is written stands behind those before it. -/
@[simp] theorem text_push (o : Output) (piece : String) :
    (o.push piece).text = o.text ++ piece := by
  simp [text, push, Text.concat_append]

end Output

end Ferrotype

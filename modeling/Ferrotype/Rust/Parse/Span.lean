/-
# Stretches of tokens kept as text

Some types and expressions are kept as they are written. `rawSpan` and `verbatimSpan` cut such a
stretch off; `joinTokens` writes its tokens one after the other, with a blank between two of them
unless one of the two is tight on that side.
-/

import Ferrotype.Rust.Parse.Basic

namespace Ferrotype
namespace Rust

/-- The tokens that have no blank before them. -/
def tightBefore : List String := [",", ")", "]", ">", ";", "::", "(", "<", "!", "."]

/-- Whether a text, given in reverse, has no blank after it. -/
def tightAfter : List Char → Bool
  | '(' :: _ => true
  | '[' :: _ => true
  | '<' :: _ => true
  | ':' :: ':' :: _ => true
  | '&' :: _ => true
  | '*' :: _ => true
  | '.' :: _ => true
  | '!' :: _ => true
  | _ => false

/-- A text with one more token. A sign that stands first is tight, too. -/
def appendToken (text part : String) : String :=
  if text ≠ "" ∧ text ≠ "-" ∧ part ∉ tightBefore ∧ ¬ tightAfter text.toList.reverse then
    text ++ " " ++ part
  else text ++ part

/-- The text of tokens. -/
def joinTokens (parts : List String) : String := parts.foldl appendToken ""

/-- The text of tokens. -/
def textOf (ts : List Token) : String := joinTokens (ts.map (·.text))

/-- The tokens up to one of a kind that stops or to a bracket that closes more than was opened, and
the rest; `depth` groups are open. -/
def rawSpan (stops : Kind → Bool) : Nat → List Token → List Token × List Token
  | _, [] => ([], [])
  | depth, t :: ts =>
    if depth = 0 ∧ (stops t.kind ∨ t.kind.closes) then ([], t :: ts)
    else
      let depth' :=
        if t.kind.opens then depth + 1 else if t.kind.closes then depth - 1 else depth
      (t :: (rawSpan stops depth' ts).1, (rawSpan stops depth' ts).2)

/-- A span and what follows it are the tokens. -/
theorem rawSpan_append (stops : Kind → Bool) (depth : Nat) (ts : List Token) :
    (rawSpan stops depth ts).1 ++ (rawSpan stops depth ts).2 = ts := by
  fun_induction rawSpan stops depth ts <;> simp_all

/-- No more is left behind a span. -/
theorem length_rawSpan_le (stops : Kind → Bool) (depth : Nat) (ts : List Token) :
    (rawSpan stops depth ts).2.length ≤ ts.length := by
  have h := congrArg List.length (rawSpan_append stops depth ts)
  simp only [List.length_append] at h
  omega

/-- Whether a token outside all groups ends a type that is kept as text. -/
def endsVerbatim : Kind → Bool
  | .comma | .semicolon | .eq | .lbrace | .rbrace | .gt | .rparen | .rbracket => true
  | _ => false

/-- The groups that are open after a token of a type that is kept as text. Angle brackets group,
too; braces do not. -/
def verbatimDepth (depth : Nat) : Kind → Nat
  | .lt | .lparen | .lbracket => depth + 1
  | .gt | .rparen | .rbracket => depth - 1
  | _ => depth

/-- The tokens of a type that is kept as text, and the rest; `depth` groups are open. -/
def verbatimSpan : Nat → List Token → List Token × List Token
  | _, [] => ([], [])
  | depth, t :: ts =>
    if depth = 0 ∧ endsVerbatim t.kind then ([], t :: ts)
    else
      let depth' := verbatimDepth depth t.kind
      (t :: (verbatimSpan depth' ts).1, (verbatimSpan depth' ts).2)

/-- The span of a type and what follows it are the tokens. -/
theorem verbatimSpan_append (depth : Nat) (ts : List Token) :
    (verbatimSpan depth ts).1 ++ (verbatimSpan depth ts).2 = ts := by
  fun_induction verbatimSpan depth ts <;> simp_all

/-- Less is left behind a type that is kept as text. -/
theorem length_verbatimSpan_lt {t : Token} (h : endsVerbatim t.kind = false) (depth : Nat)
    (ts : List Token) : (verbatimSpan depth (t :: ts)).2.length < (t :: ts).length := by
  have happend := congrArg List.length (verbatimSpan_append (verbatimDepth depth t.kind) ts)
  simp only [List.length_append] at happend
  simp only [verbatimSpan, h, Bool.false_eq_true, and_false, if_false, List.length_cons]
  omega

end Rust
end Ferrotype

/-
# Reading constant expressions

A literal, a negated expression, an array or a tuple; references leave no trace, and neither do
parentheses around one expression. A list that is not plainly separated by commas, and everything
else, is kept as text up to the next comma or semicolon outside its groups.
-/

import Ferrotype.Rust.Parse.Span
import Ferrotype.Rust.Expr

namespace Ferrotype
namespace Rust

/-- Whether a token ends an expression that is kept as text. -/
def endsRaw (kind : Kind) : Bool := kind == .semicolon || kind == .comma

/-- The next tokens as an expression that is kept as text. -/
def rawExpr (ts : List Token) : Parsed Expr (ts.length + 1) :=
  ⟨.raw (textOf (rawSpan endsRaw 0 ts).1), (rawSpan endsRaw 0 ts).2,
    Nat.lt_succ_of_le (length_rawSpan_le endsRaw 0 ts)⟩

/-- The kind of literal that a token is. -/
def literalKind? : Kind → Option LiteralKind
  | .string => some .string
  | .char => some .char
  | .number => some .number
  | .trueWord => some .bool
  | .falseWord => some .bool
  | _ => none

/-- A literal: strings and characters without quotes and escapes, the others as they stand. -/
def literalExpr [Text.StandIn] (t : Token) (kind : LiteralKind) : Result Expr :=
  match kind with
  | .string | .char => (literalText t).map (.literal · kind)
  | _ => .ok (.literal t.text kind)

/-- What parentheses stand for: one expression is itself, any other number is a tuple. -/
def ofParenthesized : List Expr → Expr
  | [element] => element
  | elements => .tuple elements

mutual

/-- An expression. -/
def parseExpr [Text.StandIn] (eof : Token) (ts : List Token) :
    Result (Parsed Expr (ts.length + 1)) :=
  match ts with
  | [] => .ok (rawExpr [])
  | t :: rest =>
    if t.kind = .ampersand then do
      let e ← parseExpr eof rest
      .ok e.later
    else if t.kind = .minus then do
      let e ← parseExpr eof rest
      .ok (e.map (.unary "-")).later
    else match literalKind? t.kind with
      | some kind => do
        let e ← literalExpr t kind
        .ok (Parsed.past e t rest).later
      | none =>
        if t.kind = .lbracket then do
          match ← parseList eof .rbracket rest with
          | some elements => .ok (elements.map Expr.array).later.later
          | none => .ok (rawExpr (t :: rest))
        else if t.kind = .lparen then do
          match ← parseList eof .rparen rest with
          | some elements => .ok (elements.map ofParenthesized).later.later
          | none => .ok (rawExpr (t :: rest))
        else .ok (rawExpr (t :: rest))
termination_by (ts.length, 0)
decreasing_by all_goals exact Prod.Lex.left _ _ (Nat.lt_succ_self _)

/-- Expressions up to the closing bracket, separated by commas; none if something else stands
between them. -/
def parseList [Text.StandIn] (eof : Token) (closer : Kind) (ts : List Token) :
    Result (Option (Parsed (List Expr) ts.length)) :=
  match ts with
  | [] => .error (.expected closer eof .plain)
  | t :: rest =>
    if t.kind = closer then .ok (some (.past [] t rest))
    else do
      let e ← parseExpr eof (t :: rest)
      match hrest : e.rest with
      | [] => .ok none
      | u :: us =>
        have hle : (u :: us).length ≤ (t :: rest).length := by
          rw [← hrest]
          exact Nat.le_of_lt_succ e.shorter
        if u.kind = .comma then do
          match ← parseList eof closer us with
          | some more => .ok (some ((more.map (e.value :: ·)).later.widen hle))
          | none => .ok none
        else if u.kind = closer then .ok (some ((Parsed.past [e.value] u us).widen hle))
        else .ok none
termination_by (ts.length, 1)
decreasing_by
  · exact Prod.Lex.right _ Nat.zero_lt_one
  · exact Prod.Lex.left _ _ hle

end

end Rust
end Ferrotype

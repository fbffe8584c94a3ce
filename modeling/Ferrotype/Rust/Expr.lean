/-
# Constant expressions

The values of constants, as far as they have a literal form: literals, negated numbers, arrays and
tuples. Any other expression is kept as its text.
-/

namespace Ferrotype
namespace Rust

/-- What a literal is. -/
inductive LiteralKind
  | string | char | number | bool
  /-- A literal of no known kind. -/
  | other
deriving Repr, DecidableEq

/-- A constant expression. -/
inductive Expr
  /-- A literal. Strings and characters are kept without quotes and escapes. -/
  | literal (text : String) (kind : LiteralKind)
  /-- An operator before its operand. -/
  | unary (operator : String) (operand : Expr)
  | array (elements : List Expr)
  | tuple (elements : List Expr)
  /-- An expression kept as its text. -/
  | raw (text : String)
  /-- An expression of no known form, with a label for messages. -/
  | unknown (label : String)
deriving Repr, BEq, Inhabited

end Rust
end Ferrotype

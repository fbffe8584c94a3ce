/-
# Translating values

Literals, negated numbers, and arrays and tuples of such expressions have a value; `None` and the
empty tuple are `null`. No other expression has one.
-/

import Ferrotype.Rust.Expr
import Ferrotype.Rust.Numeral
import Ferrotype.TypeScript.Value

namespace Ferrotype
namespace Translate

open Rust (Expr)

/-- The ways to write the absent value. -/
def nonePaths : List String :=
  ["None", "Option::None", "std::option::Option::None", "core::option::Option::None"]

/-- The value of a literal. -/
def literal (text : String) : Rust.LiteralKind → TypeScript.Value
  | .string | .char => .string text
  | .number => .number false (Rust.Numeral.plain text)
  | .bool | .other => .word text

mutual

/-- The value of an expression. -/
def value? : Expr → Option TypeScript.Value
  | .literal text kind => some (literal text kind)
  | .unary operator (.literal text kind) =>
    if operator = "-" ∧ kind = .number then some (.number true (Rust.Numeral.plain text)) else none
  | .unary _ _ => none
  | .raw text => if nonePaths.contains text then some .null else none
  | .tuple [] => some .null
  | .tuple (e :: es) => (values? (e :: es)).map .array
  | .array elements => (values? elements).map .array
  | .unknown _ => none

/-- The values of expressions, if all of them have one. -/
def values? : List Expr → Option (List TypeScript.Value)
  | [] => some []
  | e :: es => (value? e).bind fun v => (values? es).map (v :: ·)

end

/-- An expression without value, in words: its text, or what it is. -/
def describe : Option Expr → String
  | none => "no value"
  | some (.raw text) => if text.isEmpty then "RawExpression" else text
  | some (.literal ..) => "Literal"
  | some (.unary ..) => "UnaryOperation"
  | some (.array _) => "ArrayLiteral"
  | some (.tuple _) => "TupleExpression"
  | some (.unknown label) => label

end Translate
end Ferrotype

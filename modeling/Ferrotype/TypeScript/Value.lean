/-
# TypeScript values

The values that a constant can be declared with.
-/

import Ferrotype.Text.Literal
import Ferrotype.Text.Pieces

namespace Ferrotype
namespace TypeScript

/-- A value. -/
inductive Value
  | null
  | string (text : String)
  /-- A number by its numeral, which may have a sign before it. -/
  | number (negative : Bool) (numeral : String)
  /-- A value by its word, such as `true`. -/
  | word (text : String)
  | array (elements : List Value)
deriving Repr, BEq, Inhabited

namespace Value

mutual

/-- The text of a value. -/
def render : Value → String
  | null => "null"
  | .string text => Text.literal text
  | number negative numeral => if negative then "-" ++ numeral else numeral
  | word text => text
  | array elements => "[" ++ Text.join ", " (renderAll elements) ++ "]"

/-- The texts of values. -/
def renderAll : List Value → List String
  | [] => []
  | value :: values => value.render :: renderAll values

end

/-- The members of a list are written one by one. -/
@[simp] theorem renderAll_eq_map (values : List Value) : renderAll values = values.map render := by
  induction values with
  | nil => rfl
  | cons value values ih => simp [renderAll, ih]

end Value

end TypeScript
end Ferrotype

/-
# Reading token lists

A parser takes the tokens that are left and gives a value and fewer tokens, or an error. The end of
the source is no token of the list; the token that stands for it is handed along for the errors
that name it.

An error says what was expected, what stood there instead, and in which place of the grammar.
-/

import Ferrotype.Parsed
import Ferrotype.Rust.Escape
import Ferrotype.Rust.Token

namespace Ferrotype
namespace Rust

/-! ## Errors -/

/-- The place of the grammar in which a token was expected. -/
inductive Place
  /-- A place that the expected token describes well enough. -/
  | plain
  | closingArguments
  | closingAttribute (name : String)
  | closingGenerics
  | structName
  | afterTupleStruct (name : String)
  | afterUnitStruct (name : String)
  | fieldName
  | afterField (name : String)
  | betweenTupleFields
  | enumName
  | openingEnum (name : String)
  | variantOf (name : String)
  | afterVariant (name : String)
  | constName
  | afterConst (name : String)
  | aliasName
  | inAlias (name : String)
  | afterAlias (name : String)
  | closingArray
  | betweenElements
  | closingTuple
  | closingTypeArguments
deriving Repr, DecidableEq

namespace Place

/-- The words for a place. -/
def describe : Place → String
  | plain => ""
  | closingArguments => "closing attribute arguments"
  | closingAttribute name => "closing attribute #" ++ name
  | closingGenerics => "closing generic parameters"
  | structName => "struct name"
  | afterTupleStruct name => "after tuple struct " ++ name
  | afterUnitStruct name => "after unit struct " ++ name
  | fieldName => "field name"
  | afterField name => "after field " ++ name
  | betweenTupleFields => "between tuple fields"
  | enumName => "enum name"
  | openingEnum name => "opening enum " ++ name
  | variantOf name => "variant of " ++ name
  | afterVariant name => "after variant " ++ name
  | constName => "const name"
  | afterConst name => "after const " ++ name
  | aliasName => "type alias name"
  | inAlias name => "in type alias " ++ name
  | afterAlias name => "after type alias " ++ name
  | closingArray => "closing array type"
  | betweenElements => "between tuple elements"
  | closingTuple => "closing tuple type"
  | closingTypeArguments => "closing generic arguments"

end Place

/-- Why a source has no items. -/
inductive ParseError
  /-- Another kind of token was expected. -/
  | expected (kind : Kind) (got : Token) (place : Place)
  /-- A type was expected. -/
  | expectedType (got : Token)
  /-- A literal has a bad escape. -/
  | escape (error : EscapeError)
deriving Repr, DecidableEq

namespace ParseError

/-- Where a token stands, as an error says it. -/
def location (t : Token) : String :=
  t.kind.name ++ " at line " ++ toString t.pos.line ++ ", column " ++ toString t.pos.column

/-- The text of an error. -/
def message : ParseError → String
  | expected kind got place =>
    "Expected " ++ kind.name ++ " but got " ++ location got ++ ": " ++ place.describe
  | expectedType got => "Expected a type but got " ++ location got
  | escape error => error.message

end ParseError

/-! ## Results -/

/-- A value and the tokens after it, of which there are fewer than `n`. -/
abbrev Parsed (α : Type) (n : Nat) := Ferrotype.Parsed Token α n

/-- What a parser gives. -/
abbrev Result (α : Type) := Except ParseError α

/-! ## The next token -/

/-- The kind of the next token. -/
def headKind : List Token → Kind
  | [] => .eof
  | t :: _ => t.kind

@[simp] theorem headKind_nil : headKind [] = .eof := rfl

@[simp] theorem headKind_cons (t : Token) (ts : List Token) : headKind (t :: ts) = t.kind := rfl

/-- The tokens without the next one, if that is of the given kind. -/
def dropIf (kind : Kind) : List Token → List Token
  | [] => []
  | t :: ts => if t.kind = kind then ts else t :: ts

/-- No more is left behind a token that may be there. -/
theorem length_dropIf_le (kind : Kind) (ts : List Token) :
    (dropIf kind ts).length ≤ ts.length := by
  fun_cases dropIf kind ts <;> simp

/-- Less is left behind a token. -/
theorem length_drop_one_lt {ts : List Token} {n : Nat} (h : ts.length ≤ n + 1) :
    (ts.drop 1).length < n + 1 := by
  rw [List.length_drop]
  omega

/-- The next token, which has to be of the given kind. -/
def expect (eof : Token) (kind : Kind) (place : Place) :
    (ts : List Token) → Result (Parsed Token ts.length)
  | [] => .error (.expected kind eof place)
  | t :: ts =>
    if t.kind = kind then .ok (.past t t ts) else .error (.expected kind t place)

/-! ## Groups of brackets -/

/-- What follows the bracket that closes a group, with `depth` groups open inside it. Brackets of
all kinds count alike. -/
def closeGroup : Nat → List Token → List Token
  | _, [] => []
  | depth, t :: ts =>
    if t.kind.opens then closeGroup (depth + 1) ts
    else if t.kind.closes then
      match depth with
      | 0 => ts
      | depth + 1 => closeGroup depth ts
    else closeGroup depth ts

/-- No more is left behind a group. -/
theorem length_closeGroup_le (depth : Nat) (ts : List Token) :
    (closeGroup depth ts).length ≤ ts.length := by
  fun_induction closeGroup depth ts <;> simp_all <;> omega

/-- The tokens after the next unit: a group of brackets or a single token. -/
def dropUnit : List Token → List Token
  | [] => []
  | t :: ts => if t.kind.opens then closeGroup 0 ts else ts

@[simp] theorem dropUnit_nil : dropUnit [] = [] := rfl

/-- Less is left behind an empty pair of parentheses. -/
theorem length_dropUnit_lt (t : Token) (ts : List Token) :
    (dropUnit (t :: ts)).length < (t :: ts).length := by
  have := length_closeGroup_le 0 ts
  simp only [dropUnit, List.length_cons]
  split <;> omega

/-- No more is left behind one that may be there. -/
theorem length_dropUnit_le (ts : List Token) : (dropUnit ts).length ≤ ts.length := by
  cases ts with
  | nil => simp
  | cons t ts => exact Nat.le_of_lt (length_dropUnit_lt t ts)

/-- The text of a literal token. -/
def literalText [Text.StandIn] (t : Token) : Result String := (unquote t.text).mapError .escape

end Rust
end Ferrotype

/-
# TypeScript types

Names, applications, arrays, tuples and unions with `null`. A foreign type stands for one that has
no counterpart; it is written as it came and counted, so that a report can name it.

An array writes its element in parentheses if the text of that holds a union or an intersection
sign between blanks, at whatever depth.
-/

import Ferrotype.Text.Pieces

namespace Ferrotype
namespace TypeScript

/-- A type. -/
inductive TypeExpr
  /-- A type by its name. -/
  | name (text : String)
  /-- A generic type with its arguments. -/
  | apply (head : String) (args : List TypeExpr)
  | array (element : TypeExpr)
  | tuple (elements : List TypeExpr)
  /-- A type or `null`. -/
  | orNull (inner : TypeExpr)
  /-- A type without counterpart: the text that a report shows and the text that is written. -/
  | foreign (reported written : String)
deriving Repr, BEq, Inhabited

/-- Whether a text holds another one. -/
def contains (part : List Char) : List Char → Bool
  | [] => part.isEmpty
  | c :: cs => part.isPrefixOf (c :: cs) || contains part cs

/-- Whether a type with the given text needs parentheses before the brackets of an array. -/
def needsParentheses (text : String) : Bool :=
  contains " | ".toList text.toList || contains " & ".toList text.toList

/-- The element of an array, in parentheses where they are needed. -/
def elementText (text : String) : String :=
  if needsParentheses text then "(" ++ text ++ ")" else text

/-- A list between brackets. -/
def bracketed (texts : List String) : String := "[" ++ Text.join ", " texts ++ "]"

/-- A list between angle brackets. -/
def angled (texts : List String) : String := "<" ++ Text.join ", " texts ++ ">"

namespace TypeExpr

mutual

/-- The text of a type. -/
def render : TypeExpr → String
  | .name text => text
  | apply head args => head ++ angled (renderAll args)
  | array element => elementText element.render ++ "[]"
  | tuple elements => bracketed (renderAll elements)
  | orNull inner => inner.render ++ " | null"
  | foreign _ written => written

/-- The texts of types. -/
def renderAll : List TypeExpr → List String
  | [] => []
  | type :: types => type.render :: renderAll types

end

/-- The members of a list are written one by one. -/
@[simp] theorem renderAll_eq_map (types : List TypeExpr) : renderAll types = types.map render := by
  induction types with
  | nil => rfl
  | cons type types ih => simp [renderAll, ih]

mutual

/-- What a report shows of the foreign types in a type, from left to right. -/
def foreigns : TypeExpr → List String
  | .name _ => []
  | apply _ args => foreignsAll args
  | array element => element.foreigns
  | tuple elements => foreignsAll elements
  | orNull inner => inner.foreigns
  | foreign reported _ => [reported]

/-- What a report shows of the foreign types in types. -/
def foreignsAll : List TypeExpr → List String
  | [] => []
  | type :: types => type.foreigns ++ foreignsAll types

end

/-- The foreign types of a list are those of its members. -/
@[simp] theorem foreignsAll_eq_flatMap (types : List TypeExpr) :
    foreignsAll types = types.flatMap foreigns := by
  induction types with
  | nil => rfl
  | cons type types ih => simp [foreignsAll, ih]

end TypeExpr

/-- The parameters of a generic declaration, or nothing without any. -/
def renderGenerics (generics : List String) : String :=
  if generics.isEmpty then "" else angled generics

end TypeScript
end Ferrotype

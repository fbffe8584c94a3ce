/-
# Items

An item is a declaration at the top of a source: a struct, an enum, a constant or a type alias, with
the documentation and the attributes written before it.
-/

import Ferrotype.Rust.Type
import Ferrotype.Rust.Expr

namespace Ferrotype
namespace Rust

/-- An argument of an attribute. `flatten` is a key alone; the text in `doc = "…"` has the empty
key. -/
structure Argument where
  key : String
  value : Option String
deriving Repr, DecidableEq, Inhabited

/-- An attribute such as `#[serde(tag = "type")]`. -/
structure Attribute where
  name : String
  args : List Argument
deriving Repr, DecidableEq, Inhabited

/-- The documentation lines and the attributes before an item or a member. -/
structure Preamble where
  docs : List String
  attributes : List Attribute
deriving Repr, DecidableEq, Inhabited

/-- A field; the fields of a tuple have no name. -/
structure Field where
  name : Option String
  type : TypeExpr
  preamble : Preamble
deriving Repr, BEq, Inhabited

/-- The form of a variant. -/
inductive VariantShape
  | unit | tuple | named
  /-- A form that is not stated. -/
  | unstated
deriving Repr, DecidableEq, Inhabited

/-- A variant of an enum. -/
structure Variant where
  name : String
  shape : VariantShape
  fields : List Field
  discriminant : Option String
  preamble : Preamble
deriving Repr, BEq, Inhabited

/-- The form of a struct. -/
inductive StructShape
  | named | tuple | unit
deriving Repr, DecidableEq, Inhabited

/-- What an item declares. -/
inductive Body
  | struct (shape : StructShape) (fields : List Field)
  | enum (variants : List Variant)
  | const (type : TypeExpr) (value : Option Expr)
  | typeAlias (target : TypeExpr)
  /-- A name and nothing else. -/
  | bare
deriving Repr, BEq, Inhabited

/-- The word for the kind of a declaration. -/
def Body.word : Body → String
  | struct .. => "struct"
  | enum .. => "enum"
  | const .. => "const"
  | typeAlias .. => "type"
  | bare => "item"

/-- A declaration. -/
structure Item where
  name : String
  generics : List String
  preamble : Preamble
  body : Body
deriving Repr, BEq, Inhabited

end Rust
end Ferrotype

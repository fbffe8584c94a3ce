/-
# Translating fields

The fields of a struct or of a variant make up a record. A flattened field is merged into it, an
optional one only partially; a skipped field leaves no trace, even if it is flattened.
-/

import Ferrotype.Serde.Attributes
import Ferrotype.Translate.Type
import Ferrotype.TypeScript.Declaration

namespace Ferrotype
namespace Translate

open Rust (Field)
open Serde (Casing)

/-- What the attributes of a field say. -/
def factsOf (f : Field) : Serde.FieldFacts := Serde.fieldFacts f.preamble.attributes

/-- Whether a field becomes a property. -/
def isPlain (f : Field) : Bool := !(factsOf f).flatten && !(factsOf f).skip

/-- Whether a field is merged. -/
def isMerged (f : Field) : Bool := (factsOf f).flatten && !(factsOf f).skip

/-- The property that a field becomes, under a casing policy. -/
def property (policy : Option Casing) (f : Field) : TypeScript.Property where
  docs := f.preamble.docs
  name := Serde.memberName policy (factsOf f).rename (f.name.getD "")
  optional := (slot f.type).optional || (factsOf f).optional
  type := (slot f.type).type

/-- The type that a field merges. -/
def mergedType (f : Field) : TypeScript.TypeExpr :=
  let s := slot f.type
  if s.optional then .apply "Partial" [s.type] else s.type

/-- The record that fields make up, under a casing policy. -/
def record (policy : Option Casing) (fields : List Field) : TypeScript.Record where
  properties := (fields.filter isPlain).map (property policy)
  merged := (fields.filter isMerged).map mergedType

/-- The types of fields without names. -/
def fieldTypes (fields : List Field) : List TypeScript.TypeExpr := fields.map (type ·.type)

end Translate
end Ferrotype

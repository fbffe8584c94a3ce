/-
# Translating enums

An enum becomes the union of the forms in which its variants are serialized. How a variant looks
depends on the tagging:

* untagged: the payload alone, or `null`;
* with a tag and a content key: the payload stands under that key;
* with a tag: the payload is merged with the tag;
* otherwise: a unit variant is its name, a tuple variant a tuple, and a record stands under the
  name.

An enum of unit variants without tagging may become an enumeration instead. Variants that are not
serialized are left out.
-/

import Ferrotype.Settings
import Ferrotype.Translate.Record

namespace Ferrotype
namespace Translate

open Rust (Variant)
open Serde (Casing DeclarationFacts)
open TypeScript (Shape Tag)

/-- What the attributes of a variant say. -/
def variantFactsOf (v : Variant) : Serde.VariantFacts := Serde.variantFacts v.preamble.attributes

/-- Whether a variant is serialized. -/
def isSerialized (v : Variant) : Bool := !(variantFactsOf v).skip

/-- The name of a variant in serialized form, under the policy of its enum. -/
def label (policy : Option Casing) (v : Variant) : String :=
  Serde.memberName policy (variantFactsOf v).rename v.name

/-- The record of a variant; its own policy applies to its fields. -/
def variantRecord (v : Variant) : TypeScript.Record := record (variantFactsOf v).casing v.fields

/-- The payload of a tuple variant: a single type is itself, any other number is a tuple. -/
def payload (v : Variant) : TypeScript.TypeExpr :=
  match fieldTypes v.fields with
  | [t] => t
  | types => .tuple types

/-- A variant without tagging. -/
def untagged (v : Variant) : Shape :=
  match v.shape with
  | .unit => .type (.name "null")
  | .tuple => .type (payload v)
  | .named | .unstated => .record none (variantRecord v)

/-- A variant with its payload under a key of its own. -/
def adjacent (tag : Tag) (content : String) (v : Variant) : Shape :=
  match v.shape with
  | .unit => .tag tag
  | .tuple => .tagWith tag content (payload v)
  | .named | .unstated => .keyed (some tag) content (variantRecord v)

/-- A variant with its payload merged with the tag. -/
def internal (tag : Tag) (v : Variant) : Shape :=
  match v.shape with
  | .named => .record (some tag) (variantRecord v)
  | .tuple => .tagAnd tag (payload v)
  | .unit | .unstated => .tag tag

/-- A variant told apart by its name. -/
def external (name : String) (v : Variant) : Shape :=
  match v.shape with
  | .unit => .label name
  | .tuple => .type (.tuple (fieldTypes v.fields))
  | .named | .unstated => .keyed none name (variantRecord v)

/-- What a variant looks like in the union of its enum. -/
def shape (facts : DeclarationFacts) (v : Variant) : Shape :=
  let name := label facts.casing v
  if facts.untagged then untagged v
  else match facts.tag, facts.content with
    | some tag, some content => adjacent ⟨tag, name⟩ content v
    | some tag, none => internal ⟨tag, name⟩ v
    | none, _ => external name v

/-- The member of the union that a variant becomes. -/
def member (facts : DeclarationFacts) (v : Variant) : TypeScript.Member :=
  ⟨v.preamble.docs, shape facts v⟩

/-- The enumerator that a unit variant becomes: its discriminant, or its name as a string. -/
def enumerator (facts : DeclarationFacts) (v : Variant) : TypeScript.Enumerator where
  docs := v.preamble.docs
  name := v.name
  value := v.discriminant.getD (Text.literal (label facts.casing v))

/-- Whether an enum of these variants becomes an enumeration. -/
def isEnumeration (settings : Settings) (facts : DeclarationFacts) (variants : List Variant) :
    Bool :=
  settings.constEnums && facts.tag.isNone && !facts.untagged && !variants.isEmpty &&
    variants.all (·.shape == .unit)

/-- The declaration of an enum. -/
def enum (settings : Settings) (facts : DeclarationFacts) (name : String) (generics : List String)
    (variants : List Variant) : TypeScript.Declaration :=
  let serialized := variants.filter isSerialized
  if isEnumeration settings facts serialized then
    .constEnum name (serialized.map (enumerator facts))
  else .union name generics (serialized.map (member facts))

end Translate
end Ferrotype

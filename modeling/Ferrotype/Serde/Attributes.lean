/-
# What attributes say

The facts that a declaration, a field or a variant takes from its attributes: the export marker,
the casing policy, renaming, flattening, skipping and the tagging of enums. All but the marker come
from the arguments of the `serde` attributes; where a key occurs twice, the first one counts.

An attribute has a name if that is its whole path or the last segment of it. The nested form
`rename(serialize = "a", deserialize = "b")` has the value that is serialized.
-/

import Ferrotype.Rust.Item
import Ferrotype.Serde.Casing

namespace Ferrotype
namespace Serde

open Rust (Argument Attribute)

/-! ## Arguments -/

/-- Whether an attribute goes by a name. -/
def named (name : String) (a : Attribute) : Bool :=
  a.name == name || Text.lastSegment a.name == name

/-- Whether an attribute of a name is among the given ones. -/
def hasAttribute (name : String) (attributes : List Attribute) : Bool :=
  attributes.any (named name)

/-- The arguments of all attributes of a name, in order. -/
def argumentsOf (name : String) (attributes : List Attribute) : List Argument :=
  (attributes.filter (named name)).flatMap (·.args)

/-- The first argument with a key. -/
def argument? (key : String) (args : List Argument) : Option Argument :=
  args.find? (·.key == key)

/-! ## The nested form -/

/-- Whether a character can be part of a word before a key. -/
def isKeyChar (c : Char) : Bool := c.isAlpha || c == '_'

/-- The text of a quoted value up to its closing quote, as it is written: a backslash takes the
next character with it, which may be no line feed. -/
def quotedValue? : List Char → Option (List Char)
  | [] => none
  | '"' :: _ => some []
  | ['\\'] => none
  | '\\' :: c :: cs => if c = '\n' then none else (quotedValue? cs).map ('\\' :: c :: ·)
  | c :: cs => (quotedValue? cs).map (c :: ·)

/-- The value written behind a key: white space, an equals sign, white space and a quoted text. -/
def valueBehind? (cs : List Char) : Option (List Char) :=
  match Unicode.trimStart cs with
  | '=' :: rest =>
    match Unicode.trimStart rest with
    | '"' :: body => quotedValue? body
    | _ => none
  | _ => none

/-- The word that marks the value which is serialized. -/
def serializeKey : List Char := "serialize".toList

/-- The value of the first key `serialize` in a nested argument, given the character before. -/
def serialized? : Option Char → List Char → Option (List Char)
  | _, [] => none
  | before, c :: cs =>
    let here :=
      if !before.any isKeyChar && serializeKey.isPrefixOf (c :: cs) then
        valueBehind? ((c :: cs).drop serializeKey.length)
      else none
    match here with
    | some value => some value
    | none => serialized? (some c) cs

/-- Whether a value is the nested form. -/
def isNested (value : List Char) : Bool :=
  let text := Unicode.trimStart value
  serializeKey.isPrefixOf text || "deserialize".toList.isPrefixOf text

/-- The value that an argument stands for. -/
def effectiveValue (value : String) : Option String :=
  if isNested value.toList then (serialized? none value.toList).map String.ofList else some value

/-- The value of the first argument with a key. -/
def value? (key : String) (args : List Argument) : Option String :=
  ((argument? key args).bind (·.value)).bind effectiveValue

/-! ## Facts -/

/-- What the attributes of a declaration say. -/
structure DeclarationFacts where
  exported : Bool
  casing : Option Casing
  tag : Option String
  content : Option String
  untagged : Bool
deriving Repr, DecidableEq

/-- What the attributes of a field say. -/
structure FieldFacts where
  flatten : Bool
  rename : Option String
  skip : Bool
  /-- The key may be absent. -/
  optional : Bool
deriving Repr, DecidableEq

/-- What the attributes of a variant say. -/
structure VariantFacts where
  rename : Option String
  /-- The policy for the fields of the variant. -/
  casing : Option Casing
  skip : Bool
deriving Repr, DecidableEq

/-- The attribute whose arguments are read. -/
def attributeName : String := "serde"

/-- The casing policy among arguments. -/
def casing? (args : List Argument) : Option Casing :=
  (value? "rename_all" args).bind Casing.ofSpelling?

/-- Whether a key is among arguments, with or without a value. -/
def hasKey (key : String) (args : List Argument) : Bool := (argument? key args).isSome

/-- Whether arguments say that a member is not serialized. -/
def isSkipped (args : List Argument) : Bool := hasKey "skip" args || hasKey "skip_serializing" args

/-- The facts of a declaration, given whether it is marked. -/
def declarationFactsOf (exported : Bool) (args : List Argument) : DeclarationFacts where
  exported := exported
  casing := casing? args
  tag := value? "tag" args
  content := value? "content" args
  untagged := hasKey "untagged" args

/-- The facts of a field. -/
def fieldFactsOf (args : List Argument) : FieldFacts where
  flatten := hasKey "flatten" args
  rename := value? "rename" args
  skip := isSkipped args
  optional := hasKey "skip_serializing_if" args

/-- The facts of a variant. -/
def variantFactsOf (args : List Argument) : VariantFacts where
  rename := value? "rename" args
  casing := casing? args
  skip := isSkipped args

/-- What the attributes of a declaration say, under an export marker. -/
def declarationFacts (marker : String) (attributes : List Attribute) : DeclarationFacts :=
  declarationFactsOf (hasAttribute marker attributes) (argumentsOf attributeName attributes)

/-- What the attributes of a field say. -/
def fieldFacts (attributes : List Attribute) : FieldFacts :=
  fieldFactsOf (argumentsOf attributeName attributes)

/-- What the attributes of a variant say. -/
def variantFacts (attributes : List Attribute) : VariantFacts :=
  variantFactsOf (argumentsOf attributeName attributes)

/-- The name of a member in serialized form: a renaming wins over the policy. -/
def memberName (policy : Option Casing) (rename : Option String) (name : String) : String :=
  rename.getD (recase policy name)

end Serde
end Ferrotype

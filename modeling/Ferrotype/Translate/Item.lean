/-
# Translating items

An exported item becomes one block; an item without the export marker gives nothing. A constant
whose value has no literal form is left out, unless the output is ambient and needs no value. The
types without counterpart that an item uses are reported.

`translate` puts the blocks of all items one after the other, behind the line that marks a file as
generated.
-/

import Ferrotype.Translate.Emission
import Ferrotype.Translate.Enum
import Ferrotype.Translate.Value

namespace Ferrotype
namespace Translate

open Rust (Body Field Item StructShape)
open Serde (DeclarationFacts)
open TypeScript (Block Declaration)

/-- The type that stands for a struct without named fields: `null`, the type of its only field, or
a tuple. Skipped fields do not count. -/
def tupleTarget (fields : List Field) : TypeScript.TypeExpr :=
  match fieldTypes (fields.filter fun f => !(factsOf f).skip) with
  | [] => .name "null"
  | [t] => t
  | types => .tuple types

/-- The declaration of a struct. -/
def struct (facts : DeclarationFacts) (name : String) (generics : List String)
    (shape : StructShape) (fields : List Field) : Declaration :=
  match shape with
  | .named => .record name generics (record facts.casing fields)
  | .tuple | .unit => .typeAlias name generics (tupleTarget fields)

/-- The declaration of a constant, if it can be written. -/
def const? (settings : Settings) (name : String) (t : Rust.TypeExpr) (value : Option Rust.Expr) :
    Option Declaration :=
  if settings.ambient then some (.ambientConst name (type t))
  else (value.bind value?).map (.const name (type t))

/-- The findings of types without counterpart in a declaration. -/
def unmapped (name : String) (foreigns : List String) : List Finding :=
  foreigns.map (.unmappedType · name)

/-- The emission of a block. -/
def ofBlock (settings : Settings) (name : String) (docs : List String) (d : Declaration) :
    Emission where
  text := (Block.mk docs d).render settings.ambient
  unprocessed := []
  findings := unmapped name d.foreigns
  notes := []

/-- The emission of a constant that is left out. -/
def ofLeftOut (name : String) (t : Rust.TypeExpr) (value : Option Rust.Expr) : Emission where
  text := ""
  unprocessed := ["const " ++ name]
  findings := unmapped name (type t).foreigns ++ [.untranslatedConst name (describe value)]
  notes := ["Could not translate value of const " ++ name]

/-- The findings about the variants of an enum that are not serialized. -/
def skippedVariants (name : String) (variants : List Rust.Variant) : List Finding :=
  (variants.filter (!isSerialized ·)).map fun v => .skippedVariant name v.name

/-- The emission of an exported item. -/
def exported (settings : Settings) (facts : DeclarationFacts) (item : Item) : Emission :=
  let block := ofBlock settings item.name item.preamble.docs
  match item.body with
  | .struct shape fields => block (struct facts item.name item.generics shape fields)
  | .enum variants =>
    { Emission.empty with findings := skippedVariants item.name variants } ++
      block (enum settings facts item.name item.generics variants)
  | .const t value =>
    match const? settings item.name t value with
    | some d => block d
    | none => ofLeftOut item.name t value
  | .typeAlias target => block (.typeAlias item.name item.generics (type target))
  | .bare => Emission.empty

/-- What the attributes of an item say. -/
def factsOfItem (settings : Settings) (item : Item) : DeclarationFacts :=
  Serde.declarationFacts settings.marker item.preamble.attributes

/-- The emission of an item. -/
def ofItem (settings : Settings) (item : Item) : Emission :=
  let facts := factsOfItem settings item
  if facts.exported then exported settings facts item else Emission.empty

/-- The note that an item was encountered. -/
def encounter (settings : Settings) (item : Item) : String :=
  let what := " " ++ item.body.word ++ ": " ++ item.name
  if (factsOfItem settings item).exported then "Encountered #[" ++ settings.marker ++ "]" ++ what
  else "Encountered non-" ++ settings.marker ++ what

/-- The exported items with what their attributes say. -/
def exportedItems (settings : Settings) (items : List Item) : List (Item × DeclarationFacts) :=
  (items.map fun item => (item, factsOfItem settings item)).filter (·.2.exported)

/-- The emission of items. All of them are noted before the first is translated. -/
def ofItems (settings : Settings) (items : List Item) : Emission :=
  { Emission.empty with notes := items.map (encounter settings) } ++
    Emission.concat (items.map (ofItem settings))

/-- The first line of a generated file. -/
def marker : String := "/* This file is generated and managed by rs2ts */"

/-- The start of a generated file. -/
def header : Emission := { Emission.empty with text := marker ++ "\n" }

end Translate

/-- A generated file that holds what items give, and nothing else. -/
def translate (settings : Settings) (items : List Rust.Item) : Emission :=
  Translate.header ++ Translate.ofItems settings items

end Ferrotype

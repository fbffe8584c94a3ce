/-
# TypeScript declarations

A block is a declaration with its documentation; a blank line stands before it. Records become
interfaces, or intersections if other types are merged into them. A union lists its members line by
line; the objects among them are written on one line if they hold only a tag and its content, and
over several lines otherwise.

In an ambient file nothing is exported and constants have no value.
-/

import Ferrotype.TypeScript.Comment
import Ferrotype.TypeScript.Key
import Ferrotype.TypeScript.Type
import Ferrotype.TypeScript.Value

namespace Ferrotype
namespace TypeScript

/-! ## Objects -/

/-- A property of an object type. -/
structure Property where
  docs : List String
  name : String
  optional : Bool
  type : TypeExpr
deriving Repr, BEq, Inhabited

/-- An object type, and the types that are merged into it. -/
structure Record where
  properties : List Property
  merged : List TypeExpr
deriving Repr, BEq, Inhabited

/-- A property that tells the members of a union apart. -/
structure Tag where
  name : String
  label : String
deriving Repr, DecidableEq, Inhabited

/-- The indentation of a level. -/
def indentation (level : Nat) : Nat := 2 * level

/-- The blanks before a line of a level. -/
def indent (level : Nat) : String := Text.spaces (indentation level)

/-- A property on lines of its own. -/
def Property.render (level : Nat) (p : Property) : String :=
  renderComment (indentation level) p.docs ++ indent level ++ propertyKey p.name ++
    (if p.optional then "?" else "") ++ ": " ++ p.type.render ++ ";\n"

/-- A tag without what separates it from other properties. -/
def Tag.render (tag : Tag) : String := propertyKey tag.name ++ ": " ++ Text.literal tag.label

/-- A tag on a line of its own. -/
def Tag.line (level : Nat) (tag : Tag) : String := indent level ++ tag.render ++ ";\n"

/-- The line of a tag, if there is one. -/
def tagLine (level : Nat) (tag : Option Tag) : String := (tag.map (Tag.line level)).getD ""

/-- An object type whose closing brace stands at a level. -/
def renderObject (level : Nat) (tag : Option Tag) (properties : List Property) : String :=
  if tag.isNone && properties.isEmpty then "\x7b\x7d"
  else
    "\x7b\n" ++ tagLine (level + 1) tag ++
      Text.concat (properties.map (Property.render (level + 1))) ++ indent level ++ "\x7d"

/-- The types merged behind an object. -/
def renderMerged (types : List TypeExpr) : String :=
  Text.concat (types.map fun type => " & " ++ type.render)

/-- A record with the types that are merged into it behind it. -/
def Record.render (level : Nat) (tag : Option Tag) (r : Record) : String :=
  renderObject level tag r.properties ++ renderMerged r.merged

/-- The foreign types of a list of properties. -/
def foreignsOfProperties (properties : List Property) : List String :=
  properties.flatMap (·.type.foreigns)

/-- The foreign types of a record, those of its properties first. -/
def Record.foreigns (r : Record) : List String :=
  foreignsOfProperties r.properties ++ r.merged.flatMap (·.foreigns)

/-! ## Members of a union -/

/-- What a member of a union looks like. -/
inductive Shape
  /-- A type alone. -/
  | type (type : TypeExpr)
  /-- A string. -/
  | label (text : String)
  /-- A tag alone. -/
  | tag (tag : Tag)
  /-- A tag, and a type merged into it. -/
  | tagAnd (tag : Tag) (payload : TypeExpr)
  /-- A tag, and a type under a key of its own. -/
  | tagWith (tag : Tag) (content : String) (payload : TypeExpr)
  /-- A record, which may have a tag. -/
  | record (tag : Option Tag) (record : Record)
  /-- A record under a key, which may have a tag beside it. -/
  | keyed (tag : Option Tag) (key : String) (record : Record)
deriving Repr, BEq, Inhabited

namespace Shape

/-- The level of the closing brace of a member. -/
def memberLevel : Nat := 2

/-- The text of a member. -/
def render : Shape → String
  | type t => t.render
  | label text => Text.literal text
  | tag t => "\x7b " ++ t.render ++ " \x7d"
  | tagAnd t payload => "\x7b " ++ t.render ++ " \x7d & " ++ payload.render
  | tagWith t content payload =>
    "\x7b " ++ t.render ++ "; " ++ propertyKey content ++ ": " ++ payload.render ++ " \x7d"
  | record t r => r.render memberLevel t
  | keyed t key r =>
    "\x7b\n" ++ tagLine (memberLevel + 1) t ++ indent (memberLevel + 1) ++ propertyKey key ++
      ": " ++ r.render (memberLevel + 1) none ++ ";\n" ++ indent memberLevel ++ "\x7d"

/-- The foreign types of a member. -/
def foreigns : Shape → List String
  | type t => t.foreigns
  | label _ => []
  | tag _ => []
  | tagAnd _ payload => payload.foreigns
  | tagWith _ _ payload => payload.foreigns
  | record _ r => r.foreigns
  | keyed _ _ r => r.foreigns

end Shape

/-- A member of a union with its documentation. -/
structure Member where
  docs : List String
  shape : Shape
deriving Repr, BEq, Inhabited

/-- A member without the end of its line. -/
def Member.render (m : Member) : String :=
  renderComment (indentation 1) m.docs ++ indent 1 ++ "| " ++ m.shape.render

/-- The members of a union, a semicolon behind the last one. -/
def renderMembers : List Member → String
  | [] => ""
  | [m] => m.render ++ ";\n"
  | m :: n :: ms => m.render ++ "\n" ++ renderMembers (n :: ms)

/-- A member of an enumeration with its documentation and the text of its value. -/
structure Enumerator where
  docs : List String
  name : String
  value : String
deriving Repr, DecidableEq, Inhabited

/-- An enumerator on lines of its own. -/
def Enumerator.render (e : Enumerator) : String :=
  renderComment (indentation 1) e.docs ++ indent 1 ++ e.name ++ " = " ++ e.value ++ ",\n"

/-! ## Declarations -/

/-- A declaration. -/
inductive Declaration
  | record (name : String) (generics : List String) (record : Record)
  | typeAlias (name : String) (generics : List String) (target : TypeExpr)
  | const (name : String) (type : TypeExpr) (value : Value)
  /-- A constant whose value is elsewhere. -/
  | ambientConst (name : String) (type : TypeExpr)
  | constEnum (name : String) (enumerators : List Enumerator)
  | union (name : String) (generics : List String) (members : List Member)
deriving Repr, BEq, Inhabited

/-- The word before a declaration of a type. -/
def exportWord (ambient : Bool) : String := if ambient then "" else "export "

namespace Declaration

/-- The start of a type alias, up to its name and parameters. -/
def aliasHead (ambient : Bool) (name : String) (generics : List String) : String :=
  exportWord ambient ++ "type " ++ name ++ renderGenerics generics

/-- The text of a declaration. -/
def render (ambient : Bool) : Declaration → String
  | record name generics r =>
    (if r.merged.isEmpty then
      exportWord ambient ++ "interface " ++ name ++ renderGenerics generics ++ " "
    else
      aliasHead ambient name generics ++ " = " ++
        Text.concat (r.merged.map fun type => type.render ++ " & ")) ++
      renderObject 0 none r.properties ++ "\n"
  | typeAlias name generics target =>
    aliasHead ambient name generics ++ " = " ++ target.render ++ ";\n"
  | const name type value =>
    "export const " ++ name ++ ": " ++ type.render ++ " = " ++ value.render ++ ";\n"
  | ambientConst name type => "declare const " ++ name ++ ": " ++ type.render ++ ";\n"
  | constEnum name enumerators =>
    (if ambient then "declare " else "export ") ++ "const enum " ++ name ++ " \x7b\n" ++
      Text.concat (enumerators.map Enumerator.render) ++ "\x7d\n"
  | union name generics members =>
    aliasHead ambient name generics ++ " =" ++
      if members.isEmpty then " never;\n" else "\n" ++ renderMembers members

/-- The foreign types of a declaration, in the order in which they are written. -/
def foreigns : Declaration → List String
  | record _ _ r => r.merged.flatMap (·.foreigns) ++ foreignsOfProperties r.properties
  | typeAlias _ _ target => target.foreigns
  | const _ type _ => type.foreigns
  | ambientConst _ type => type.foreigns
  | constEnum _ _ => []
  | union _ _ members => members.flatMap (·.shape.foreigns)

end Declaration

/-- A declaration with its documentation. -/
structure Block where
  docs : List String
  declaration : Declaration
deriving Repr, BEq, Inhabited

/-- The text of a block, with the blank line before it. -/
def Block.render (ambient : Bool) (b : Block) : String :=
  "\n" ++ renderComment 0 b.docs ++ b.declaration.render ambient

end TypeScript
end Ferrotype

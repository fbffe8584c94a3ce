/-
# Where foreign types stand in a text

A text is cut into fragments: words of its own, and foreign types as they are written. The
fragments of a declaration follow its rendering part by part, so a fragment marks each place where
the text of a foreign type goes into the text of the declaration. `Fragment.Shows` says that
fragments make up a text and what a report shows of the foreign types in it, in their order; it is
proved along the rendering, one lemma for each of its functions.
-/

import Ferrotype.TypeScript.Declaration

namespace Ferrotype
namespace TypeScript

/-- A part of a text: words of its own, or a foreign type with what a report shows of it. -/
inductive Fragment
  | own (text : String)
  | foreign (reported written : String)
deriving Repr, DecidableEq

namespace Fragment

/-- The text of a fragment. -/
def text : Fragment → String
  | own text => text
  | foreign _ written => written

/-- What a report shows of a fragment. -/
def reported? : Fragment → Option String
  | own _ => none
  | foreign reported _ => some reported

/-- The text that fragments make up. -/
def concat (fs : List Fragment) : String := Text.concat (fs.map text)

/-- What a report shows of the foreign types among fragments, in their order. -/
def occurrences (fs : List Fragment) : List String := fs.filterMap reported?

/-- Fragments that make up a text, with what a report shows of the foreign types in it. -/
structure Shows (fs : List Fragment) (text : String) (reported : List String) : Prop where
  text_eq : concat fs = text
  occurrences_eq : occurrences fs = reported

namespace Shows

variable {fs gs : List Fragment} {a b : String} {xs ys : List String}

theorem nil : Shows [] "" [] := ⟨rfl, rfl⟩

/-- Fragments show their texts one behind the other. -/
theorem append (h : Shows fs a xs) (h' : Shows gs b ys) : Shows (fs ++ gs) (a ++ b) (xs ++ ys) where
  text_eq := by
    rw [concat, List.map_append, Text.concat_append, ← h.text_eq, ← h'.text_eq]
    rfl
  occurrences_eq := by
    rw [occurrences, List.filterMap_append, ← h.occurrences_eq, ← h'.occurrences_eq]
    rfl

theorem own (text : String) : Shows [.own text] text [] := ⟨String.append_empty, rfl⟩

theorem foreign (reported written : String) :
    Shows [.foreign reported written] written [reported] := ⟨String.append_empty, rfl⟩

/-- Words in front of fragments. -/
theorem before (text : String) (h : Shows fs a xs) : Shows (.own text :: fs) (text ++ a) xs :=
  (own text).append h

/-- Words behind fragments. -/
theorem behind (h : Shows fs a xs) (text : String) : Shows (fs ++ [.own text]) (a ++ text) xs := by
  have hbehind := h.append (own text)
  rwa [List.append_nil] at hbehind

/-- So do the fragments of a list. -/
theorem flatMap {α : Type} {fragments : α → List Fragment} {write : α → String}
    {foreigns : α → List String} {as : List α}
    (h : ∀ a ∈ as, Shows (fragments a) (write a) (foreigns a)) :
    Shows (as.flatMap fragments) (Text.concat (as.map write)) (as.flatMap foreigns) := by
  induction as with
  | nil => exact nil
  | cons a as ih =>
    obtain ⟨ha, has⟩ := List.forall_mem_cons.1 h
    exact ha.append (ih has)

end Shows

/-- Fragments of several texts with a comma between neighbours. -/
def joined : List (List Fragment) → List Fragment
  | [] => []
  | [fs] => fs
  | fs :: gs :: rest => fs ++ .own ", " :: joined (gs :: rest)

end Fragment

open Fragment (Shows)

/-! ## Types -/

namespace TypeExpr

open Fragment (own joined)

mutual

/-- The fragments of a type. -/
def fragments : TypeExpr → List Fragment
  | .name text => [own text]
  | apply head args => own head :: own "<" :: (joined (fragmentsAll args) ++ [own ">"])
  | array element =>
    (if needsParentheses element.render then own "(" :: (element.fragments ++ [own ")"])
    else element.fragments) ++ [own "[]"]
  | tuple elements => own "[" :: (joined (fragmentsAll elements) ++ [own "]"])
  | orNull inner => inner.fragments ++ [own " | null"]
  | foreign reported written => [.foreign reported written]

/-- The fragments of types, one by one. -/
def fragmentsAll : List TypeExpr → List (List Fragment)
  | [] => []
  | type :: types => type.fragments :: fragmentsAll types

end

mutual

/-- **The fragments of a type** make up its text, and its foreign types are among them. -/
theorem shows_fragments (t : TypeExpr) : Shows t.fragments t.render t.foreigns := by
  cases t with
  | name text => exact .own text
  | apply head args => exact (((shows_joined args).before "<").behind ">").before head
  | array element =>
    have helement := shows_fragments element
    rw [fragments, render, elementText]
    split
    · exact ((helement.before "(").behind ")").behind "[]"
    · exact helement.behind "[]"
  | tuple elements => exact ((shows_joined elements).before "[").behind "]"
  | orNull inner => exact (shows_fragments inner).behind " | null"
  | «foreign» reported written => exact .foreign reported written

/-- Types with commas between them are shown by their fragments. -/
theorem shows_joined (types : List TypeExpr) :
    Shows (joined (fragmentsAll types)) (Text.join ", " (renderAll types)) (foreignsAll types) := by
  match types with
  | [] => exact .nil
  | [t] =>
    have ht := shows_fragments t
    rw [← List.append_nil t.foreigns] at ht
    exact ht
  | t :: u :: types =>
    have hrest := (shows_joined (u :: types)).before ", "
    have htypes := (shows_fragments t).append hrest
    rw [← String.append_assoc] at htypes
    exact htypes

end

end TypeExpr

/-! ## Members and declarations -/

open Fragment (own)

/-- The fragments of a property. -/
def Property.fragments (level : Nat) (p : Property) : List Fragment :=
  own (renderComment (indentation level) p.docs ++ indent level ++ propertyKey p.name ++
    (if p.optional then "?" else "") ++ ": ") :: (p.type.fragments ++ [own ";\n"])

/-- A property is shown with the foreign types of its type. -/
theorem Property.shows_fragments (level : Nat) (p : Property) :
    Shows (p.fragments level) (p.render level) p.type.foreigns :=
  (p.type.shows_fragments.before _).behind ";\n"

/-- The fragments of an object type. -/
def objectFragments (level : Nat) (tag : Option Tag) (properties : List Property) :
    List Fragment :=
  if tag.isNone && properties.isEmpty then [own "\x7b\x7d"]
  else
    own ("\x7b\n" ++ tagLine (level + 1) tag) ::
      (properties.flatMap (Property.fragments (level + 1)) ++ [own (indent level), own "\x7d"])

/-- An object is shown with those of its properties. -/
theorem shows_objectFragments (level : Nat) (tag : Option Tag) (properties : List Property) :
    Shows (objectFragments level tag properties) (renderObject level tag properties)
      (foreignsOfProperties properties) := by
  unfold objectFragments renderObject
  split
  · rename_i hempty
    rw [Bool.and_eq_true, List.isEmpty_iff] at hempty
    rw [hempty.2]
    exact .own "\x7b\x7d"
  · have hproperties : Shows (properties.flatMap (Property.fragments (level + 1)))
        (Text.concat (properties.map (Property.render (level + 1))))
        (foreignsOfProperties properties) :=
      .flatMap fun p _ => p.shows_fragments (level + 1)
    have hobject := ((hproperties.before ("\x7b\n" ++ tagLine (level + 1) tag)).behind
      (indent level)).behind "\x7d"
    rwa [List.append_assoc] at hobject

/-- The fragments of types merged behind an object. -/
def mergedFragments (types : List TypeExpr) : List Fragment :=
  types.flatMap fun type => own " & " :: type.fragments

/-- The fragments of a record with the types that are merged into it behind it. -/
def Record.fragments (level : Nat) (tag : Option Tag) (r : Record) : List Fragment :=
  objectFragments level tag r.properties ++ mergedFragments r.merged

/-- A record is shown with those of its properties and of what is merged into it. -/
theorem Record.shows_fragments (level : Nat) (tag : Option Tag) (r : Record) :
    Shows (r.fragments level tag) (r.render level tag) r.foreigns :=
  (shows_objectFragments level tag r.properties).append
    (.flatMap fun type _ => type.shows_fragments.before " & ")

namespace Shape

/-- The fragments of a member. -/
def fragments : Shape → List Fragment
  | type t => t.fragments
  | label text => [own (Text.literal text)]
  | tag t => [own ("\x7b " ++ t.render ++ " \x7d")]
  | tagAnd t payload => own ("\x7b " ++ t.render ++ " \x7d & ") :: payload.fragments
  | tagWith t content payload =>
    own ("\x7b " ++ t.render ++ "; " ++ propertyKey content ++ ": ") ::
      (payload.fragments ++ [own " \x7d"])
  | record t r => r.fragments memberLevel t
  | keyed t key r =>
    own ("\x7b\n" ++ tagLine (memberLevel + 1) t ++ indent (memberLevel + 1) ++ propertyKey key ++
      ": ") :: (r.fragments (memberLevel + 1) none ++ [own ";\n", own (indent memberLevel), own "\x7d"])

/-- The shape of a variant is shown with those of its parts. -/
theorem shows_fragments (s : Shape) : Shows s.fragments s.render s.foreigns := by
  cases s with
  | type t => exact t.shows_fragments
  | label text => exact .own _
  | tag t => exact .own _
  | tagAnd t payload =>
    have hpayload := payload.shows_fragments.before ("\x7b " ++ t.render ++ " \x7d & ")
    rwa [String.append_assoc] at hpayload
  | tagWith t content payload => exact (payload.shows_fragments.before _).behind " \x7d"
  | record t r => exact r.shows_fragments memberLevel t
  | keyed t key r =>
    have hrecord := ((((r.shows_fragments (memberLevel + 1) none).before ("\x7b\n" ++
      tagLine (memberLevel + 1) t ++ indent (memberLevel + 1) ++ propertyKey key ++ ": ")).behind
        ";\n").behind (indent memberLevel)).behind "\x7d"
    rwa [List.append_assoc, List.append_assoc] at hrecord

end Shape

/-- The fragments of a member without the end of its line. -/
def Member.fragments (m : Member) : List Fragment :=
  own (renderComment (indentation 1) m.docs ++ indent 1 ++ "| ") :: m.shape.fragments

/-- A member of a union is shown with those of its shape. -/
theorem Member.shows_fragments (m : Member) : Shows m.fragments m.render m.shape.foreigns :=
  m.shape.shows_fragments.before _

/-- The fragments of the members of a union. -/
def membersFragments : List Member → List Fragment
  | [] => []
  | [m] => m.fragments ++ [own ";\n"]
  | m :: n :: ms => m.fragments ++ [own "\n"] ++ membersFragments (n :: ms)

/-- Members are shown one behind the other. -/
theorem shows_membersFragments (members : List Member) :
    Shows (membersFragments members) (renderMembers members)
      (members.flatMap (·.shape.foreigns)) := by
  induction members with
  | nil => exact .nil
  | cons m rest ih =>
    cases rest with
    | nil =>
      rw [List.flatMap_singleton]
      exact m.shows_fragments.behind ";\n"
    | cons n rest => exact (m.shows_fragments.behind "\n").append ih

namespace Declaration

/-- The fragments of a declaration. -/
def fragments (ambient : Bool) : Declaration → List Fragment
  | record name generics r =>
    (if r.merged.isEmpty then
      [own (exportWord ambient ++ "interface " ++ name ++ renderGenerics generics ++ " ")]
    else
      own (aliasHead ambient name generics ++ " = ") ::
        (r.merged.flatMap fun type => type.fragments ++ [own " & "])) ++
      objectFragments 0 none r.properties ++ [own "\n"]
  | typeAlias name generics target =>
    own (aliasHead ambient name generics ++ " = ") :: (target.fragments ++ [own ";\n"])
  | const name type value =>
    own ("export const " ++ name ++ ": ") ::
      (type.fragments ++ [own " = ", own value.render, own ";\n"])
  | ambientConst name type =>
    own ("declare const " ++ name ++ ": ") :: (type.fragments ++ [own ";\n"])
  | constEnum name enumerators => [own ((constEnum name enumerators).render ambient)]
  | union name generics members =>
    own (aliasHead ambient name generics ++ " =") ::
      if members.isEmpty then [own " never;\n"] else own "\n" :: membersFragments members

/-- **The fragments of a declaration** make up its text, and its foreign types are among them. -/
theorem shows_fragments (ambient : Bool) (d : Declaration) :
    Shows (d.fragments ambient) (d.render ambient) d.foreigns := by
  cases d with
  | record name generics r =>
    have hmerged : Shows (r.merged.flatMap fun type => type.fragments ++ [own " & "])
        (Text.concat (r.merged.map fun type => type.render ++ " & "))
        (r.merged.flatMap (·.foreigns)) :=
      .flatMap fun type _ => type.shows_fragments.behind " & "
    refine (Shows.append ?_ (shows_objectFragments 0 none r.properties)).behind "\n"
    split
    · rename_i hempty
      rw [List.isEmpty_iff.1 hempty]
      exact .own _
    · exact hmerged.before _
  | typeAlias name generics target => exact (target.shows_fragments.before _).behind ";\n"
  | const name type value =>
    have hconst := (((type.shows_fragments.before ("export const " ++ name ++ ": ")).behind
      " = ").behind value.render).behind ";\n"
    rwa [List.append_assoc, List.append_assoc] at hconst
  | ambientConst name type => exact (type.shows_fragments.before _).behind ";\n"
  | constEnum name enumerators => exact .own _
  | union name generics members =>
    refine Shows.before (aliasHead ambient name generics ++ " =") ?_
    split
    · rename_i hempty
      rw [List.isEmpty_iff.1 hempty]
      exact .own " never;\n"
    · exact (shows_membersFragments members).before "\n"

end Declaration

/-- The fragments of a block, with the blank line before it. -/
def Block.fragments (ambient : Bool) (b : Block) : List Fragment :=
  own ("\n" ++ renderComment 0 b.docs) :: b.declaration.fragments ambient

/-- A block is shown with the foreign types of its declaration; its comment holds none. -/
theorem Block.shows_fragments (ambient : Bool) (b : Block) :
    Shows (b.fragments ambient) (b.render ambient) b.declaration.foreigns :=
  (b.declaration.shows_fragments ambient).before ("\n" ++ renderComment 0 b.docs)

end TypeScript
end Ferrotype

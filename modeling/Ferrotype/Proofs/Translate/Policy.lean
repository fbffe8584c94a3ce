/-
# What a policy can change

A casing policy changes names and nothing else. The policy of an item is for the names of its
properties or of its variants: for a declaration with these left blank it makes no difference which
policy the attributes of the item name (`agreeUpTo_withAttributes`). The policy of a variant is for
the names of its fields (`agreeUpTo_withVariant`).

Both follow from one fact about enums: what becomes of an enum depends on the form of its variants,
on which of them are serialized, and on what becomes of each (`mapParts_enum`, `agreeUpTo_enum`).
-/

import Ferrotype.Proofs.Serde.Arguments
import Ferrotype.Proofs.Translate.Settings
import Mathlib.Data.List.Forall2

namespace Ferrotype
namespace Rust

/-! ## Other attributes -/

/-- A field with other attributes. -/
def Field.withAttributes (f : Field) (attributes : List Attribute) : Field :=
  { f with preamble := { f.preamble with attributes := attributes } }

/-- A variant with other attributes. -/
def Variant.withAttributes (v : Variant) (attributes : List Attribute) : Variant :=
  { v with preamble := { v.preamble with attributes := attributes } }

/-- An item with other attributes. -/
def Item.withAttributes (item : Item) (attributes : List Attribute) : Item :=
  { item with preamble := { item.preamble with attributes := attributes } }

/-- An item with another body. -/
def Item.withBody (item : Item) (body : Body) : Item := { item with body := body }

end Rust

namespace TypeScript

/-! ## Names left blank -/

/-- A property without its name. -/
def Property.unnamed (q : Property) : Property := { q with name := "" }

/-- A record without the names of its properties. -/
def Record.unnamed (r : Record) : Record :=
  { r with properties := r.properties.map Property.unnamed }

/-- A tag without the name of its variant. -/
def Tag.unlabelled (tag : Tag) : Tag := { tag with label := "" }

namespace Shape

/-- A member of a union without the name of its variant. A record stands under this name if it has
no tag beside it; the key beside a tag is no name of a variant. -/
def unlabelled : Shape → Shape
  | type t => .type t
  | label _ => .label ""
  | tag t => .tag t.unlabelled
  | tagAnd t payload => .tagAnd t.unlabelled payload
  | tagWith t content payload => .tagWith t.unlabelled content payload
  | record t r => .record (t.map Tag.unlabelled) r
  | keyed none _ r => .keyed none "" r
  | keyed (some t) key r => .keyed (some t.unlabelled) key r

/-- A member of a union without the names of its properties. -/
def unnamed : Shape → Shape
  | record t r => .record t r.unnamed
  | keyed t key r => .keyed t key r.unnamed
  | shape => shape

end Shape

/-- An enumerator without its value. -/
def Enumerator.unlabelled (e : Enumerator) : Enumerator := { e with value := "" }

namespace Declaration

/-- A declaration whose parts are passed through functions. -/
def mapParts (property : Property → Property) (member : Member → Member)
    (enumerator : Enumerator → Enumerator) : Declaration → Declaration
  | record name generics r =>
    .record name generics { r with properties := r.properties.map property }
  | constEnum name enumerators => .constEnum name (enumerators.map enumerator)
  | union name generics members => .union name generics (members.map member)
  | d => d

/-- A declaration whose parts are kept is the same. -/
theorem mapParts_id (d : Declaration) : d.mapParts id id id = d := by
  cases d <;> simp [mapParts]

/-- A declaration without the names that its own policy is for: those of the properties of a record,
those of the variants in a union, and the values in an enumeration. -/
def unlabelled : Declaration → Declaration :=
  mapParts Property.unnamed (fun m => { m with shape := m.shape.unlabelled })
    Enumerator.unlabelled

/-- A declaration without the names of the properties inside the members of a union. -/
def unnamed : Declaration → Declaration :=
  mapParts id (fun m => { m with shape := m.shape.unnamed }) id

end Declaration
end TypeScript

namespace Translate

open Rust (Attribute Body Field Item Variant)
open Serde (Casing DeclarationFacts)
open TypeScript (Declaration Enumerator Member Property Shape)

/-! ## Lists -/

/-- Two lists that agree on what is kept of them and on what becomes of it give the same list. -/
theorem map_filter_congr {α β γ : Type} {keeps : α → Bool} {keeps' : β → Bool} {f : α → γ}
    {f' : β → γ} {xs : List α} {ys : List β}
    (h : List.Forall₂ (fun x y => keeps x = keeps' y ∧ f x = f' y) xs ys) :
    (xs.filter keeps).map f = (ys.filter keeps').map f' := by
  induction h with
  | nil => rfl
  | @cons x y xs ys hhead _ ih =>
    obtain ⟨hkeeps, hf⟩ := hhead
    rw [List.filter_cons, List.filter_cons, hkeeps]
    split
    · rw [List.map_cons, List.map_cons, hf, ih]
    · exact ih

/-- Two lists that differ in one element, which is related. -/
theorem forall₂_at {α : Type} {R : α → α → Prop} (hrefl : ∀ x, R x x) {x y : α} (h : R x y)
    (before after : List α) : List.Forall₂ R (before ++ x :: after) (before ++ y :: after) :=
  List.rel_append (List.forall₂_same.2 fun x _ => hrefl x)
    (.cons h (List.forall₂_same.2 fun x _ => hrefl x))

/-! ## Records -/

/-- Under two policies, records differ in the names of their properties at most. -/
theorem unnamed_record (c c' : Option Casing) (fields : List Field) :
    (record c fields).unnamed = (record c' fields).unnamed := by
  simp only [record, TypeScript.Record.unnamed, List.map_map]
  rfl

/-! ## Enums -/

section Enums

variable {facts facts' : DeclarationFacts} {v v' : Variant}

/-- Two facts about an enum that agree on its tagging. -/
structure SameTagging (facts facts' : DeclarationFacts) : Prop where
  tag : facts.tag = facts'.tag
  content : facts.content = facts'.content
  untagged : facts.untagged = facts'.untagged

/-- A policy changes no tagging. -/
theorem sameTagging_withCasing (facts : DeclarationFacts) (c : Option Casing) :
    SameTagging facts (facts.withCasing c) := ⟨rfl, rfl, rfl⟩

/-- What a variant looks like depends on its form, its name, its types and its record. -/
theorem shape_congr (htagging : SameTagging facts facts') (hform : v.shape = v'.shape)
    (hlabel : label facts.casing v = label facts'.casing v')
    (htypes : fieldTypes v.fields = fieldTypes v'.fields)
    (hrecord : variantRecord v = variantRecord v') : shape facts v = shape facts' v' := by
  obtain ⟨htag, hcontent, huntagged⟩ := htagging
  simp only [shape, untagged, adjacent, internal, external, payload, htag, hcontent, huntagged,
    hform, hlabel, htypes, hrecord]

/-- Under two policies, a variant looks the same up to its name. -/
theorem unlabelled_shape (htagging : SameTagging facts facts') (v : Variant) :
    (shape facts v).unlabelled = (shape facts' v).unlabelled := by
  obtain ⟨htag, hcontent, huntagged⟩ := htagging
  simp only [shape, htag, hcontent, huntagged]
  cases facts'.untagged with
  | true => rfl
  | false =>
    cases facts'.tag with
    | none => cases hform : v.shape <;> simp only [external, hform] <;> rfl
    | some tag =>
      cases facts'.content with
      | none => cases hform : v.shape <;> simp only [internal, hform] <;> rfl
      | some content => cases hform : v.shape <;> simp only [adjacent, hform] <;> rfl

/-- But for its label an enumerator does not depend on the facts. -/
theorem unlabelled_enumerator (facts facts' : DeclarationFacts) (v : Variant) :
    (enumerator facts v).unlabelled = (enumerator facts' v).unlabelled := by
  rw [Enumerator.unlabelled, Enumerator.unlabelled, enumerator, enumerator]

/-- Variants of one form and one name look the same up to the names of their properties. -/
theorem unnamed_shape (facts : DeclarationFacts) (hform : v.shape = v'.shape)
    (hlabel : label facts.casing v = label facts.casing v') (hfields : v.fields = v'.fields) :
    (shape facts v).unnamed = (shape facts v').unnamed := by
  have hrecord : (variantRecord v).unnamed = (variantRecord v').unnamed := by
    rw [variantRecord, variantRecord, hfields]
    exact unnamed_record _ _ _
  have hpayload : payload v = payload v' := by rw [payload, payload, hfields]
  have hkeyed (tag : Option TypeScript.Tag) (key : String) :
      (Shape.keyed tag key (variantRecord v)).unnamed =
        (Shape.keyed tag key (variantRecord v')).unnamed :=
    congrArg (Shape.keyed tag key) hrecord
  have hobject (tag : Option TypeScript.Tag) :
      (Shape.record tag (variantRecord v)).unnamed =
        (Shape.record tag (variantRecord v')).unnamed :=
    congrArg (Shape.record tag) hrecord
  simp only [shape, hlabel, untagged, adjacent, internal, external, hform, hpayload, hfields]
  cases v'.shape with
  | unit | tuple => rfl
  | named =>
    split
    · exact hobject none
    · split
      · exact hkeyed _ _
      · exact hobject _
      · exact hkeyed none _
  | unstated =>
    split
    · exact hobject none
    · split
      · exact hkeyed _ _
      · rfl
      · exact hkeyed none _

/-- Two variants with the same part in what kind of declaration their enum becomes. -/
structure SameKind (v v' : Variant) : Prop where
  serialized : isSerialized v = isSerialized v'
  form : v.shape = v'.shape
  name : v.name = v'.name

variable {vs vs' : List Variant}

/-- What is made of the variants that are serialized is the same if it is for each of them. -/
theorem map_serialized_congr {γ : Type} {f f' : Variant → γ}
    (h : List.Forall₂ (fun v v' => SameKind v v' ∧ f v = f' v') vs vs') :
    (vs.filter isSerialized).map f = (vs'.filter isSerialized).map f' :=
  map_filter_congr (h.imp fun _ _ ⟨hkind, hf⟩ => ⟨hkind.serialized, hf⟩)

/-- The same variants are reported as skipped. -/
theorem skippedVariants_congr (name : String) (h : List.Forall₂ SameKind vs vs') :
    skippedVariants name vs = skippedVariants name vs' :=
  map_filter_congr (h.imp fun v v' hkind => by rw [hkind.serialized, hkind.name]; exact ⟨rfl, rfl⟩)

/-- The same enums become enumerations. -/
theorem isEnumeration_congr (settings : Settings) (htagging : SameTagging facts facts')
    (h : List.Forall₂ SameKind vs vs') :
    isEnumeration settings facts (vs.filter isSerialized) =
      isEnumeration settings facts' (vs'.filter isSerialized) := by
  have hforms : (vs.filter isSerialized).map (·.shape) = (vs'.filter isSerialized).map (·.shape) :=
    map_serialized_congr (h.imp fun _ _ hkind => ⟨hkind, hkind.form⟩)
  have hofForms (facts : DeclarationFacts) (vs : List Variant) : isEnumeration settings facts vs =
      (settings.constEnums && facts.tag.isNone && !facts.untagged &&
        !(vs.map (·.shape)).isEmpty && (vs.map (·.shape)).all (· == .unit)) := by
    rw [isEnumeration, List.isEmpty_map, List.all_map]
    rfl
  rw [hofForms, hofForms, hforms, htagging.tag, htagging.untagged]

/-- Two variants with the same part in the declarations of their enums, up to what is made of
members and of enumerators. -/
structure SamePart (ofMember : Member → Member) (ofEnumerator : Enumerator → Enumerator)
    (facts facts' : DeclarationFacts) (v v' : Variant) : Prop extends SameKind v v' where
  member : ofMember (Translate.member facts v) = ofMember (Translate.member facts' v')
  enumerator :
    ofEnumerator (Translate.enumerator facts v) = ofEnumerator (Translate.enumerator facts' v')

variable {ofMember : Member → Member} {ofEnumerator : Enumerator → Enumerator}

/-- A variant makes the same part as itself. -/
theorem samePart_self (facts : DeclarationFacts) (v : Variant) :
    SamePart ofMember ofEnumerator facts facts v v := ⟨⟨rfl, rfl, rfl⟩, rfl, rfl⟩

/-- **Enums are declared alike if their variants have the same parts.** -/
theorem mapParts_enum (settings : Settings) (name : String) (generics : List String)
    {property : Property → Property} (htagging : SameTagging facts facts')
    (h : List.Forall₂ (SamePart ofMember ofEnumerator facts facts') vs vs') :
    (enum settings facts name generics vs).mapParts property ofMember ofEnumerator =
      (enum settings facts' name generics vs').mapParts property ofMember ofEnumerator := by
  have hkind := isEnumeration_congr settings htagging (h.imp fun _ _ part => part.toSameKind)
  have henumerators : (vs.filter isSerialized).map (ofEnumerator ∘ enumerator facts) =
      (vs'.filter isSerialized).map (ofEnumerator ∘ enumerator facts') :=
    map_serialized_congr (h.imp fun _ _ part => ⟨part.toSameKind, part.enumerator⟩)
  have hmembers : (vs.filter isSerialized).map (ofMember ∘ member facts) =
      (vs'.filter isSerialized).map (ofMember ∘ member facts') :=
    map_serialized_congr (h.imp fun _ _ part => ⟨part.toSameKind, part.member⟩)
  rw [enum, enum, hkind]
  split
  · rw [Declaration.mapParts, List.map_map, henumerators, Declaration.mapParts, List.map_map]
  · rw [Declaration.mapParts, List.map_map, hmembers, Declaration.mapParts, List.map_map]

end Enums

/-! ## Items -/

section Items

variable (settings : Settings) {item : Item}

/-- Two emissions of an item agree up to what is forgotten: they are one, or they are declarations
behind the same findings, and what is left of these is one declaration. -/
inductive AgreeUpTo (forget : Declaration → Declaration) (settings : Settings) (item : Item)
    (e e' : Emission) : Prop
  | same (same : e = e')
  | declared (findings : List Finding) (d d' : Declaration)
    (declared : e = Translate.declared settings item findings d)
    (declared' : e' = Translate.declared settings item findings d') (agree : forget d = forget d')

/-- Emissions that agree in all parts are equal. -/
theorem AgreeUpTo.eq {settings : Settings} {e e' : Emission}
    (h : AgreeUpTo (Declaration.mapParts id id id) settings item e e') : e = e' := by
  cases h with
  | same hsame => exact hsame
  | declared findings d d' hd hd' hagree =>
    rw [Declaration.mapParts_id, Declaration.mapParts_id] at hagree
    rw [hd, hd', hagree]

/-- Items that are exported alike agree if what they export does. -/
theorem agreeUpTo_ofItem {forget : Declaration → Declaration} {item' : Item}
    (hexported : (factsOfItem settings item).exported = (factsOfItem settings item').exported)
    (h : AgreeUpTo forget settings item (exported settings (factsOfItem settings item) item)
      (exported settings (factsOfItem settings item') item')) :
    AgreeUpTo forget settings item (ofItem settings item) (ofItem settings item') := by
  rw [ofItem, ofItem, ← hexported]
  split
  · exact h
  · exact .same rfl

/-- Enums whose variants have the same parts agree. -/
theorem agreeUpTo_enum {property : Property → Property} {ofMember : Member → Member}
    {ofEnumerator : Enumerator → Enumerator} {facts facts' : DeclarationFacts}
    (htagging : SameTagging facts facts') {vs vs' : List Variant} (hbody : item.body = .enum vs)
    (attributes : List Attribute)
    (h : List.Forall₂ (SamePart ofMember ofEnumerator facts facts') vs vs') :
    AgreeUpTo (Declaration.mapParts property ofMember ofEnumerator) settings item
      (exported settings facts item)
      (exported settings facts' ((item.withAttributes attributes).withBody (.enum vs'))) := by
  refine .declared (skippedVariants item.name vs) _ _ (exported_enum settings facts hbody) ?_
    (mapParts_enum settings item.name item.generics htagging h)
  rw [skippedVariants_congr item.name (h.imp fun _ _ part => part.toSameKind)]
  exact exported_enum settings facts' rfl

/-- Facts say nothing about an item without members. -/
theorem exported_of_noMembers (facts facts' : DeclarationFacts) (attributes : List Attribute)
    {body : Body} (hbody : item.body = body) (hstruct : ∀ shape fields, body ≠ .struct shape fields)
    (henum : ∀ variants, body ≠ .enum variants) :
    exported settings facts item =
      exported settings facts' ((item.withAttributes attributes).withBody body) := by
  rw [exported, exported, hbody]
  cases body with
  | struct shape fields => exact absurd rfl (hstruct shape fields)
  | enum variants => exact absurd rfl (henum variants)
  | const t value => rfl
  | typeAlias target => rfl
  | bare => rfl

/-- **What a policy can change.** Whichever policy the attributes of an item name, its declaration
is the same up to the names that the policy is for. -/
theorem agreeUpTo_withAttributes {attributes : List Attribute} {c : Option Casing}
    (h : Serde.declarationFacts settings.marker attributes =
      (factsOfItem settings item).withCasing c) :
    AgreeUpTo Declaration.unlabelled settings item (ofItem settings item)
      (ofItem settings (item.withAttributes attributes)) := by
  have hfacts : factsOfItem settings (item.withAttributes attributes) =
      (factsOfItem settings item).withCasing c := h
  have hitem : item.withAttributes attributes =
      (item.withAttributes attributes).withBody item.body := rfl
  refine agreeUpTo_ofItem settings (by rw [hfacts]; rfl) ?_
  rw [hfacts, hitem]
  cases hbody : item.body with
  | struct shape fields =>
    refine .declared [] _ _ (exported_struct settings _ hbody) (exported_struct settings _ rfl) ?_
    cases shape with
    | named => exact congrArg (Declaration.record item.name item.generics) (unnamed_record _ _ _)
    | tuple | unit => rfl
  | enum variants =>
    refine agreeUpTo_enum settings (sameTagging_withCasing _ c) hbody attributes ?_
    refine List.forall₂_same.2 fun v _ => ⟨⟨rfl, rfl, rfl⟩, ?_, unlabelled_enumerator _ _ v⟩
    rw [member, member, unlabelled_shape (sameTagging_withCasing _ c) v]
  | _ =>
    exact .same (exported_of_noMembers settings _ _ _ hbody (fun _ _ => Body.noConfusion)
      fun _ => Body.noConfusion)

/-- **What the policy of a variant can change.** Whichever policy the attributes of a variant name,
the declaration of its enum is the same up to the names of properties inside its members. -/
theorem agreeUpTo_withVariant {before after : List Variant} {v : Variant}
    (hbody : item.body = .enum (before ++ v :: after)) {attributes : List Attribute}
    {c : Option Casing} (h : Serde.variantFacts attributes = (variantFactsOf v).withCasing c) :
    AgreeUpTo Declaration.unnamed settings item (ofItem settings item)
      (ofItem settings (item.withBody
        (.enum (before ++ v.withAttributes attributes :: after)))) := by
  have hfacts : variantFactsOf (v.withAttributes attributes) =
      (variantFactsOf v).withCasing c := h
  have hlabel (policy : Option Casing) :
      label policy v = label policy (v.withAttributes attributes) := by
    rw [label, label, hfacts]
    rfl
  refine agreeUpTo_ofItem settings rfl ?_
  refine agreeUpTo_enum settings ⟨rfl, rfl, rfl⟩ hbody item.preamble.attributes ?_
  refine forall₂_at (samePart_self _) ?_ before after
  refine ⟨⟨?_, rfl, rfl⟩, ?_, ?_⟩
  · rw [isSerialized, isSerialized, hfacts]
    rfl
  · exact congrArg (Member.mk v.preamble.docs) (unnamed_shape _ rfl (hlabel _) rfl)
  · rw [enumerator, enumerator, hlabel]
    rfl

end Items

end Translate
end Ferrotype

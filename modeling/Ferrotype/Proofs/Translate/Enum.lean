/-
# Tagged enums

The type that is written for an enum with a tag is the union of its serialized variants: read with
the precedence of `&` over `|`, its alternatives are the variants one by one, each an object with
the tag or an intersection with such an object. The one exception is an optional type that is
merged into a tag. It is written without parentheses, so that its `null` becomes an alternative of
its own (`alternatives_enum`).
-/

import Ferrotype.Proofs.TypeScript.Union
import Ferrotype.Translate.Item

namespace Ferrotype

namespace Rust
namespace TypeExpr

mutual

/-- Whether a type has a counterpart in all its parts: none is kept as text, scalars are known, and
names hold no marks. -/
def hasCounterpart : TypeExpr → Bool
  | path name args =>
    name.toList.all (TypeScript.isFree TypeScript.separators) && hasCounterpartAll args
  | primitive name => (scalars.lookup name).isSome
  | option inner => inner.hasCounterpart
  | sequence element => element.hasCounterpart
  | set element => element.hasCounterpart
  | map key value => key.hasCounterpart && value.hasCounterpart
  | tuple elements => hasCounterpartAll elements
  | verbatim _ => false
  | unknown _ => false

/-- Whether types have counterparts in all their parts. -/
def hasCounterpartAll : List TypeExpr → Bool
  | [] => true
  | t :: ts => t.hasCounterpart && hasCounterpartAll ts

end

/-- Whether a value of a type may be absent. -/
def isOption : TypeExpr → Bool
  | option _ => true
  | _ => false

end TypeExpr
end Rust

namespace Translate

open Rust (Field Item Variant)
open TypeScript (Carries Shape Tag alternatives lexemes)

/-! ## Types -/

/-- A plain type is plain where it stands alone. -/
theorem isPlain_standalone {s : Slot} (h : s.type.isPlain) : s.standalone.isPlain := by
  unfold Slot.standalone
  split <;> exact h

/-- A scalar is written as a name without marks. -/
theorem exists_lookup_scalars {name : String} (h : (Rust.scalars.lookup name).isSome) :
    ∃ text, Rust.scalars.lookup name = some text ∧
      text.toList.all (TypeScript.isFree TypeScript.separators) := by
  have hfree : ∀ e ∈ Rust.scalars, e.2.toList.all (TypeScript.isFree TypeScript.separators) := by
    decide
  obtain ⟨text, htext⟩ := Option.isSome_iff_exists.1 h
  obtain ⟨before, after, hsplit, -⟩ := List.lookup_eq_some_iff.1 htext
  exact ⟨text, htext,
    hfree (name, text) (hsplit ▸ List.mem_append_right _ List.mem_cons_self)⟩

mutual

/-- What a type with a counterpart is written as, apart from its mark, is no union. -/
theorem isPlain_slot (t : Rust.TypeExpr) (h : t.hasCounterpart) :
    (slot t).type.isPlain ∧ (slot t).type.isUnion = false := by
  cases t with
  | path name args =>
    rw [Rust.TypeExpr.hasCounterpart, Bool.and_eq_true] at h
    cases args with
    | nil => exact ⟨h.1, rfl⟩
    | cons arg args =>
      refine ⟨?_, rfl⟩
      have hargs := isPlainAll_standaloneAll (arg :: args) h.2
      exact Bool.and_eq_true_iff.2 ⟨h.1, hargs⟩
  | primitive name =>
    obtain ⟨text, htext, hfree⟩ := exists_lookup_scalars h
    have hscalar : (slot (.primitive name)).type = .name text := by
      rw [slot, scalar, htext]
    rw [hscalar]
    exact ⟨hfree, rfl⟩
  | option inner => exact isPlain_slot inner h
  | sequence element => exact ⟨isPlain_standalone (isPlain_slot element h).1, rfl⟩
  | set element =>
    have helement := isPlain_standalone (isPlain_slot element h).1
    exact ⟨Bool.and_eq_true_iff.2 ⟨by decide, Bool.and_eq_true_iff.2 ⟨helement, rfl⟩⟩, rfl⟩
  | map key value =>
    rw [Rust.TypeExpr.hasCounterpart, Bool.and_eq_true] at h
    have hkey := isPlain_standalone (isPlain_slot key h.1).1
    have hvalue := isPlain_standalone (isPlain_slot value h.2).1
    exact ⟨Bool.and_eq_true_iff.2 ⟨by decide, Bool.and_eq_true_iff.2
      ⟨hkey, Bool.and_eq_true_iff.2 ⟨hvalue, rfl⟩⟩⟩, rfl⟩
  | tuple elements => exact ⟨isPlainAll_standaloneAll elements h, rfl⟩
  | verbatim text => cases h
  | unknown label => cases h

/-- Lists of types with counterparts are plain. -/
theorem isPlainAll_standaloneAll (ts : List Rust.TypeExpr)
    (h : Rust.TypeExpr.hasCounterpartAll ts) :
    TypeScript.TypeExpr.isPlainAll (standaloneAll ts) := by
  cases ts with
  | nil => rfl
  | cons t ts =>
    rw [Rust.TypeExpr.hasCounterpartAll, Bool.and_eq_true] at h
    exact Bool.and_eq_true_iff.2
      ⟨isPlain_standalone (isPlain_slot t h.1).1, isPlainAll_standaloneAll ts h.2⟩

end

/-- A slot may be left out exactly if its type is an `Option`. -/
theorem optional_slot (t : Rust.TypeExpr) : (slot t).optional = t.isOption := by
  cases t with
  | path name args => cases args <;> rfl
  | _ => rfl

/-- A type with a counterpart is a union exactly if it is an `Option`. -/
theorem isUnion_type {t : Rust.TypeExpr} (h : t.hasCounterpart) :
    (type t).isUnion = t.isOption := by
  rw [type, Slot.standalone, optional_slot]
  cases t.isOption with
  | true => rfl
  | false => exact (isPlain_slot t h).2

/-- A type with a counterpart can be a payload. -/
theorem isPayload_type {t : Rust.TypeExpr} (h : t.hasCounterpart) : (type t).IsPayload := by
  obtain ⟨hplain, hsingle⟩ := isPlain_slot t h
  refine ⟨isPlain_standalone hplain, fun inner hinner => ?_⟩
  rw [type, Slot.standalone] at hinner
  split at hinner
  · obtain rfl := TypeScript.TypeExpr.orNull.inj hinner
    exact hsingle
  · rw [hinner] at hsingle
    cases hsingle

/-! ## Variants -/

/-- Whether the types of the fields of a variant have counterparts. -/
def hasCounterparts (v : Variant) : Prop := ∀ f ∈ v.fields, f.type.hasCounterpart

/-- Whether a variant holds one optional value and nothing else. -/
def holdsOption (v : Variant) : Bool :=
  v.shape == .tuple && match v.fields with
    | [f] => f.type.isOption
    | _ => false

/-- The record of fields with counterparts is plain. -/
theorem isPlain_record (policy : Option Serde.Casing) {fields : List Field}
    (h : ∀ f ∈ fields, f.type.hasCounterpart) : (record policy fields).IsPlain := by
  constructor
  · intro p hp
    obtain ⟨f, hf, rfl⟩ := List.mem_map.1 hp
    exact (isPlain_slot f.type (h f (List.mem_filter.1 hf).1)).1
  · intro t ht
    obtain ⟨f, hf, rfl⟩ := List.mem_map.1 ht
    obtain ⟨hplain, hsingle⟩ := isPlain_slot f.type (h f (List.mem_filter.1 hf).1)
    dsimp only [mergedType]
    split
    · exact ⟨Bool.and_eq_true_iff.2 ⟨by decide, Bool.and_eq_true_iff.2 ⟨hplain, rfl⟩⟩, rfl⟩
    · exact ⟨hplain, hsingle⟩

/-- The types of fields with counterparts are plain. -/
theorem isPlainAll_fieldTypes {fields : List Field} (h : ∀ f ∈ fields, f.type.hasCounterpart) :
    TypeScript.TypeExpr.isPlainAll (fieldTypes fields) := by
  induction fields with
  | nil => rfl
  | cons f fields ih =>
    obtain ⟨hf, hfields⟩ := List.forall_mem_cons.1 h
    exact Bool.and_eq_true_iff.2 ⟨(isPayload_type hf).1, ih hfields⟩

/-- The payload of a variant with counterparts can be one. -/
theorem isPayload_payload {v : Variant} (h : hasCounterparts v) :
    (payload v).IsPayload := by
  unfold payload
  split
  · rename_i t htypes
    obtain ⟨f, hf, rfl⟩ := List.map_eq_singleton_iff.1 htypes
    exact isPayload_type (h f (hf ▸ List.mem_singleton_self f))
  · exact ⟨isPlainAll_fieldTypes h, fun inner hinner => TypeScript.TypeExpr.noConfusion hinner⟩

/-- The payload of a tuple variant is a union exactly if it is one `Option`. -/
theorem isUnion_payload {v : Variant} (h : hasCounterparts v) (hshape : v.shape = .tuple) :
    (payload v).isUnion = holdsOption v := by
  obtain ⟨name, vshape, fields, discriminant, preamble⟩ := v
  obtain rfl : vshape = .tuple := hshape
  match fields, h with
  | [], _ => rfl
  | [f], h => exact isUnion_type (h f (List.mem_singleton_self f))
  | f :: g :: fields, _ => rfl

section Tagged

variable {facts : Serde.DeclarationFacts} {tag : String} (htag : facts.tag = some tag)
  (huntagged : facts.untagged = false) {v : Variant} (h : hasCounterparts v)
include htag huntagged h

/-- A variant of an enum with a tag is written with the tag and its label. -/
theorem isTagged_shape : (shape facts v).IsTagged ⟨tag, label facts.casing v⟩ := by
  have hpayload := isPayload_payload h
  have hrecord := isPlain_record (variantFactsOf v).casing h
  rw [shape, huntagged, if_neg Bool.false_ne_true, htag]
  cases facts.content with
  | none =>
    simp only
    unfold internal
    cases v.shape with
    | unit => rfl
    | tuple => exact ⟨rfl, hpayload⟩
    | named => exact ⟨rfl, hrecord⟩
    | unstated => rfl
  | some content =>
    simp only
    unfold adjacent
    cases v.shape with
    | unit => rfl
    | tuple => exact ⟨rfl, hpayload.1⟩
    | named => exact ⟨rfl, hrecord⟩
    | unstated => exact ⟨rfl, hrecord⟩

/-- A variant merges its tag with a union exactly if it is internally tagged and holds an
`Option`. -/
theorem mergesUnion_shape :
    (shape facts v).mergesUnion = (facts.content.isNone && holdsOption v) := by
  have hunion := isUnion_payload h
  rw [shape, huntagged, if_neg Bool.false_ne_true, htag]
  cases facts.content with
  | none =>
    simp only
    unfold internal
    cases hshape : v.shape with
    | tuple => exact hunion hshape
    | _ => simp [holdsOption, hshape, Shape.mergesUnion]
  | some content =>
    simp only
    unfold adjacent
    cases v.shape <;> rfl

end Tagged

/-! ## Enums -/

/-- The text of an exported enum with a tag. -/
theorem text_ofItem_enum {settings : Settings} {item : Item} {variants : List Variant}
    (hbody : item.body = .enum variants) (hexported : (factsOfItem settings item).exported)
    {tag : String} (htag : (factsOfItem settings item).tag = some tag) :
    (ofItem settings item).text = "\n" ++ TypeScript.renderComment 0 item.preamble.docs ++
      (TypeScript.Declaration.union item.name item.generics ((variants.filter isSerialized).map
        (member (factsOfItem settings item)))).render settings.ambient := by
  have henumeration : isEnumeration settings (factsOfItem settings item)
      (variants.filter isSerialized) = false := by
    rw [isEnumeration, htag]
    simp
  have henum : enum settings (factsOfItem settings item) item.name item.generics variants =
      .union item.name item.generics ((variants.filter isSerialized).map
        (member (factsOfItem settings item))) := by
    simp only [enum, henumeration, Bool.false_eq_true, if_false]
  rw [ofItem]
  simp only [hexported, if_true]
  rw [exported, hbody]
  simp only [henum, Emission.text_append]
  exact String.empty_append

/-- **The type of an enum with a tag is a discriminated union:** its alternatives are the
serialized variants, in order, each an object with the tag and the label of its variant or an
intersection with one. This holds if and only if no optional value is merged into a tag. -/
theorem alternatives_enum (settings : Settings) {item : Item} {variants : List Variant}
    (hbody : item.body = .enum variants) (hexported : (factsOfItem settings item).exported)
    {tag : String} (htag : (factsOfItem settings item).tag = some tag)
    (huntagged : (factsOfItem settings item).untagged = false)
    (hfields : ∀ v ∈ variants, hasCounterparts v) :
    ∃ text, (ofItem settings item).text = "\n" ++
        TypeScript.renderComment 0 item.preamble.docs ++
        (TypeScript.Declaration.aliasHead settings.ambient item.name item.generics ++ " =" ++
          text ++ ";\n") ∧
      (List.Forall₂
          (fun v alternative => Carries ⟨tag, label (factsOfItem settings item).casing v⟩ alternative)
          (variants.filter isSerialized) (alternatives (lexemes text)) ↔
        ((factsOfItem settings item).content = none →
          ∀ v ∈ variants.filter isSerialized, holdsOption v = false)) := by
  have hcounterparts : ∀ v ∈ variants.filter isSerialized, hasCounterparts v :=
    fun v hv => hfields v (List.mem_filter.1 hv).1
  refine ⟨TypeScript.unionText ((variants.filter isSerialized).map
    (member (factsOfItem settings item))), ?_, ?_⟩
  · rw [text_ofItem_enum hbody hexported htag, TypeScript.render_union]
  · have htagged : ∀ v ∈ variants.filter isSerialized,
        (member (factsOfItem settings item) v).shape.IsTagged
          ⟨tag, label (factsOfItem settings item).casing v⟩ :=
      fun v hv => isTagged_shape htag huntagged (hcounterparts v hv)
    have hmerges : ∀ v ∈ variants.filter isSerialized,
        (member (factsOfItem settings item) v).shape.mergesUnion =
          ((factsOfItem settings item).content.isNone && holdsOption v) :=
      fun v hv => mergesUnion_shape htag huntagged (hcounterparts v hv)
    rw [TypeScript.forall₂_alternatives_unionText htagged]
    constructor
    · intro hall hcontent v hv
      have hv' := hall v hv
      rwa [hmerges v hv, hcontent, Option.isNone_none, Bool.true_and] at hv'
    · intro hall v hv
      rw [hmerges v hv]
      cases hcontent : (factsOfItem settings item).content with
      | some content => rfl
      | none => exact hall hcontent v hv

/-- A variant that holds a value of a type. -/
def holder (t : Rust.TypeExpr) : Variant :=
  ⟨"A", .tuple, [⟨none, t, ⟨[], []⟩⟩], none, ⟨[], []⟩⟩

/-- An exported enum of this variant, with the tag `type`. -/
def holderEnum (t : Rust.TypeExpr) : Item where
  name := "E"
  generics := []
  preamble := ⟨[], [⟨Settings.defaultMarker, []⟩, ⟨"serde", [⟨"tag", some "type"⟩]⟩]⟩
  body := .enum [holder t]

example : (ofItem default (holderEnum (.option (.path "Foo" [])))).text =
    "\nexport type E =\n  | \x7b type: \"A\" \x7d & Foo | null;\n" := by
  decide

/-- The type of an enum whose variant holds a list of optional values is that variant, and with an
optional value it is not. -/
theorem alternatives_enum_holder :
    (∃ text, (ofItem default (holderEnum (.sequence (.option (.path "Foo" []))))).text =
        "\n" ++ TypeScript.renderComment 0 [] ++
          (TypeScript.Declaration.aliasHead false "E" [] ++ " =" ++ text ++ ";\n") ∧
      List.Forall₂ (fun v alternative => Carries ⟨"type", label none v⟩ alternative)
        ([holder (.sequence (.option (.path "Foo" [])))].filter isSerialized)
        (alternatives (lexemes text))) ∧
    ∃ text, (ofItem default (holderEnum (.option (.path "Foo" [])))).text =
        "\n" ++ TypeScript.renderComment 0 [] ++
          (TypeScript.Declaration.aliasHead false "E" [] ++ " =" ++ text ++ ";\n") ∧
      ¬ List.Forall₂ (fun v alternative => Carries ⟨"type", label none v⟩ alternative)
        ([holder (.option (.path "Foo" []))].filter isSerialized) (alternatives (lexemes text)) := by
  have hbody (t : Rust.TypeExpr) : (holderEnum t).body = .enum [holder t] := rfl
  have hexported (t : Rust.TypeExpr) : (factsOfItem default (holderEnum t)).exported := rfl
  have htag (t : Rust.TypeExpr) : (factsOfItem default (holderEnum t)).tag = some "type" := rfl
  have huntagged (t : Rust.TypeExpr) : (factsOfItem default (holderEnum t)).untagged = false := rfl
  have hfields (t : Rust.TypeExpr) (h : t.hasCounterpart) : ∀ v ∈ [holder t], hasCounterparts v :=
    List.forall_mem_singleton.2 (List.forall_mem_singleton.2 h)
  constructor
  · obtain ⟨text, htext, hiff⟩ := alternatives_enum default (hbody _) (hexported _) (htag _)
      (huntagged _) (hfields (.sequence (.option (.path "Foo" []))) (by decide))
    exact ⟨text, htext, hiff.2 fun _ v hv => by
      rw [List.mem_singleton.1 (List.mem_filter.1 hv).1]
      rfl⟩
  · obtain ⟨text, htext, hiff⟩ := alternatives_enum default (hbody _) (hexported _) (htag _)
      (huntagged _) (hfields (.option (.path "Foo" [])) (by decide))
    refine ⟨text, htext, fun hall => ?_⟩
    have hmem : holder (.option (.path "Foo" [])) ∈
        [holder (.option (.path "Foo" []))].filter isSerialized :=
      List.mem_filter.2 ⟨List.mem_cons_self, rfl⟩
    cases hiff.1 hall rfl _ hmem

end Translate
end Ferrotype

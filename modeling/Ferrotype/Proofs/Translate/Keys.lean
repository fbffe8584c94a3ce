/-
# The keys of a declaration

The names that attributes give to fields, tags and contents become keys: a renamed field is a
property, the tag of an enum is a key of every variant that has it, and its content, or without a
tag the name of a variant, is the key of what the variant holds.

`keys_denote_names` follows a name to all of these places. Its key is on one line and denotes the
name, and what stands behind the key is read behind it, unless the name is an identifier with a line
feed behind it.
-/

import Ferrotype.Proofs.TypeScript.KeyPlace
import Ferrotype.Translate.Enum

namespace Ferrotype
namespace Translate

open Rust (Field Variant)
open Serde (Casing DeclarationFacts)
open TypeScript (HasKey Shape followsKey isKeyLine isOnLine keyAt? keyName? propertyKey)

/-- A renamed field is a property under its new name. -/
theorem name_property {f : Field} {name : String} (h : (factsOf f).rename = some name)
    (policy : Option Casing) : (property policy f).name = name := by
  rw [property, h]
  rfl

section Tagged

variable {facts : DeclarationFacts} (huntagged : facts.untagged = false) (v : Variant)
include huntagged

/-- Every variant of an enum with a tag has the tag. -/
theorem tag?_shape {name : String} (htag : facts.tag = some name) :
    (shape facts v).tag? = some ⟨name, label facts.casing v⟩ := by
  rw [shape, huntagged, if_neg Bool.false_ne_true, htag]
  cases facts.content with
  | none =>
    simp only [internal]
    cases v.shape <;> rfl
  | some content =>
    simp only [adjacent]
    cases v.shape <;> rfl

/-- What a variant holds stands under the content key, if the enum has one. -/
theorem payloadKey?_shape_of_content {name : String} (htag : facts.tag.isSome)
    (hcontent : facts.content = some name) (hunit : v.shape ≠ .unit) :
    ∃ front, (shape facts v).payloadKey? = some (front, name) := by
  obtain ⟨tag, htag⟩ := Option.isSome_iff_exists.1 htag
  rw [shape, huntagged, if_neg Bool.false_ne_true, htag, hcontent]
  simp only [adjacent]
  cases hshape : v.shape with
  | unit => exact absurd hshape hunit
  | tuple => exact ⟨_, rfl⟩
  | named => exact ⟨_, rfl⟩
  | unstated => exact ⟨_, rfl⟩

/-- Without a tag a record stands under the name of its variant. -/
theorem payloadKey?_shape_of_rename {name : String} (htag : facts.tag = none)
    (hname : (variantFactsOf v).rename = some name) (hnamed : v.shape = .named) :
    ∃ front, (shape facts v).payloadKey? = some (front, name) := by
  have hlabel : label facts.casing v = name := by
    rw [label, hname]
    rfl
  rw [shape, huntagged, if_neg Bool.false_ne_true, htag, hlabel, external, hnamed]
  exact ⟨_, rfl⟩

end Tagged

/-- **The key of a name is on one line and denotes the name**, and different names have different
keys. Wherever the name is that of a field, a tag, a content or a variant, its key stands in the
text with a colon or a question mark behind it, and only the name is read there; a label in quotes
is read up to its closing quote. All this holds unless the name is an identifier with a line feed
behind it, and then the key is on two lines, and what is read there is not the name. -/
theorem keys_denote_names (name : String) :
    (isOnLine (propertyKey name).toList ↔ isKeyLine name = false) ∧
    (keyName? (propertyKey name).toList = some name ↔ isKeyLine name = false) ∧
    (∀ rest, followsKey rest →
      (keyAt? ((propertyKey name).toList ++ rest) = some (name, rest) ↔ isKeyLine name = false)) ∧
    (∀ rest, keyAt? ((Text.literal name).toList ++ rest) = some (name, rest)) ∧
    (∀ other, other ≠ name → propertyKey other ≠ propertyKey name ∧
      (isKeyLine other = false → isKeyLine name = false →
        keyName? (propertyKey other).toList ≠ keyName? (propertyKey name).toList)) ∧
    (∀ f, (factsOf f).rename = some name → ∀ policy level,
      HasKey (TypeScript.renderComment (TypeScript.indentation level) f.preamble.docs ++
        TypeScript.indent level) name ((property policy f).render level)) ∧
    (∀ facts v, facts.untagged = false → facts.tag = some name →
      ∃ front ∈ Shape.fronts, HasKey front name (shape facts v).render) ∧
    (∀ facts v, facts.untagged = false → facts.tag.isSome → facts.content = some name →
      v.shape ≠ .unit → ∃ front, (shape facts v).payloadKey? = some (front, name) ∧
        HasKey front name (shape facts v).render) ∧
    ∀ facts v, facts.untagged = false → facts.tag = none →
      (variantFactsOf v).rename = some name → v.shape = .named →
        ∃ front, (shape facts v).payloadKey? = some (front, name) ∧
          HasKey front name (shape facts v).render := by
  refine ⟨TypeScript.isOnLine_propertyKey name, TypeScript.keyName?_propertyKey name,
    fun _ => TypeScript.keyAt?_propertyKey name, TypeScript.keyAt?_literal name,
    fun other hne => ⟨fun hkey => hne (TypeScript.propertyKey_injective hkey), ?_⟩, ?_, ?_, ?_, ?_⟩
  · intro hother hname hdenoted
    rw [(TypeScript.keyName?_propertyKey other).2 hother,
      (TypeScript.keyName?_propertyKey name).2 hname] at hdenoted
    exact hne (Option.some.inj hdenoted)
  · intro f hrename policy level
    have hdocs : (property policy f).docs = f.preamble.docs := rfl
    have hkey := TypeScript.hasKey_property level (property policy f)
    rwa [hdocs, name_property hrename] at hkey
  · intro facts v huntagged htag
    exact Shape.hasKey_tag? (t := ⟨name, _⟩) (tag?_shape huntagged v htag)
  · intro facts v huntagged htag hcontent hunit
    obtain ⟨front, hfront⟩ := payloadKey?_shape_of_content huntagged v htag hcontent hunit
    exact ⟨front, hfront, Shape.hasKey_payloadKey? hfront⟩
  · intro facts v huntagged htag hname hnamed
    obtain ⟨front, hfront⟩ := payloadKey?_shape_of_rename huntagged v htag hname hnamed
    exact ⟨front, hfront, Shape.hasKey_payloadKey? hfront⟩

/-- The key of `kind` stays on its line, that of a name with a line feed behind it does not, and
both are read as `kind`. -/
theorem keys_denote_names_kind :
    isOnLine (propertyKey "kind").toList ∧ ¬ isOnLine (propertyKey "kind\n").toList ∧
      followsKey [':'] ∧ keyAt? ((propertyKey "kind").toList ++ [':']) = some ("kind", [':']) ∧
      keyAt? ((propertyKey "kind\n").toList ++ [':']) = some ("kind", ['\n', ':']) ∧
      ¬ keyName? (propertyKey "kind\n").toList = some "kind\n" := by
  have hkind : isKeyLine "kind" = false := by decide
  have hline : ¬ isKeyLine "kind\n" = false := by decide
  have hcolon : followsKey [':'] := .inl rfl
  exact ⟨(keys_denote_names "kind").1.2 hkind, fun h => hline ((keys_denote_names "kind\n").1.1 h),
    hcolon, ((keys_denote_names "kind").2.2.1 [':'] hcolon).2 hkind, by decide,
    fun h => hline ((keys_denote_names "kind\n").2.1.1 h)⟩

end Translate
end Ferrotype

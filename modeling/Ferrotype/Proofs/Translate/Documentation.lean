/-
# Documentation of items

What is documented changes the text of a generated file only by block comments on lines of their
own. No part of the translation but the text of a block looks at documentation, so an item without
it is translated to the same declaration without it, and the text is that of
`commented_block`.
-/

import Ferrotype.Output
import Ferrotype.Proofs.Translate.Settings
import Ferrotype.Proofs.TypeScript.Documentation
import Ferrotype.Proofs.TypeScript.Reading

namespace Ferrotype

/-! ## Items without documentation -/

namespace Rust

/-- What stands before an item or a member, without its documentation. -/
def Preamble.undocumented (p : Preamble) : Preamble := { p with docs := [] }

/-- A field without documentation. -/
def Field.undocumented (f : Field) : Field := { f with preamble := f.preamble.undocumented }

/-- A variant without documentation, its own or that of its fields. -/
def Variant.undocumented (v : Variant) : Variant :=
  { v with preamble := v.preamble.undocumented, fields := v.fields.map Field.undocumented }

/-- What an item declares, without documentation. -/
def Body.undocumented : Body → Body
  | struct shape fields => struct shape (fields.map Field.undocumented)
  | enum variants => enum (variants.map Variant.undocumented)
  | body => body

/-- An item without any documentation. -/
def Item.undocumented (item : Item) : Item :=
  { item with preamble := item.preamble.undocumented, body := item.body.undocumented }

end Rust

namespace Translate

open Rust (Field Item Variant)
open Serde (Casing DeclarationFacts)
open TypeScript (Commented Shape Tag)

/-! ## The same declaration without documentation -/

/-- What is decided by the attributes of a field chooses the same fields. -/
theorem filter_undocumented {p : Field → Bool} (hp : ∀ f, p f.undocumented = p f)
    (fields : List Field) :
    (fields.map Field.undocumented).filter p = (fields.filter p).map Field.undocumented := by
  rw [List.filter_map]
  exact congrArg _ (List.filter_congr fun f _ => hp f)

/-- The record of fields without documentation. -/
theorem record_undocumented (policy : Option Casing) (fields : List Field) :
    record policy (fields.map Field.undocumented) = (record policy fields).undocumented := by
  rw [record, filter_undocumented fun _ => rfl, filter_undocumented fun _ => rfl, List.map_map,
    List.map_map, TypeScript.Record.undocumented, record, List.map_map]
  rfl

/-- The types of fields do not depend on documentation. -/
theorem fieldTypes_undocumented (fields : List Field) :
    fieldTypes (fields.map Field.undocumented) = fieldTypes fields := by
  rw [fieldTypes, List.map_map]
  rfl

/-- The record of a variant without documentation. -/
theorem variantRecord_undocumented (v : Variant) :
    variantRecord v.undocumented = (variantRecord v).undocumented :=
  record_undocumented (variantFactsOf v).casing v.fields

/-- The payload of a variant does not depend on documentation. -/
theorem payload_undocumented (v : Variant) : payload v.undocumented = payload v := by
  rw [payload, Variant.undocumented, fieldTypes_undocumented]
  rfl

/-! A variant is written by its form, in each of the four ways to tell variants apart. -/

/-- The shape of an untagged variant without documentation. -/
theorem untagged_undocumented (v : Variant) :
    untagged v.undocumented = (untagged v).undocumented := by
  have hform : v.undocumented.shape = v.shape := rfl
  rw [untagged, untagged, hform]
  cases v.shape with
  | unit => rfl
  | tuple => exact congrArg Shape.type (payload_undocumented v)
  | named | unstated => exact congrArg (Shape.record none) (variantRecord_undocumented v)

/-- The shape of an adjacently tagged variant without documentation. -/
theorem adjacent_undocumented (tag : Tag) (content : String) (v : Variant) :
    adjacent tag content v.undocumented = (adjacent tag content v).undocumented := by
  have hform : v.undocumented.shape = v.shape := rfl
  rw [adjacent, adjacent, hform]
  cases v.shape with
  | unit => rfl
  | tuple => exact congrArg (Shape.tagWith tag content) (payload_undocumented v)
  | named | unstated =>
    exact congrArg (Shape.keyed (some tag) content) (variantRecord_undocumented v)

/-- The shape of an internally tagged variant without documentation. -/
theorem internal_undocumented (tag : Tag) (v : Variant) :
    internal tag v.undocumented = (internal tag v).undocumented := by
  have hform : v.undocumented.shape = v.shape := rfl
  rw [internal, internal, hform]
  cases v.shape with
  | named => exact congrArg (Shape.record (some tag)) (variantRecord_undocumented v)
  | tuple => exact congrArg (Shape.tagAnd tag) (payload_undocumented v)
  | unit | unstated => rfl

/-- The shape of an externally tagged variant without documentation. -/
theorem external_undocumented (name : String) (v : Variant) :
    external name v.undocumented = (external name v).undocumented := by
  have hform : v.undocumented.shape = v.shape := rfl
  rw [external, external, hform]
  cases v.shape with
  | unit => rfl
  | tuple =>
    exact congrArg (fun types => Shape.type (.tuple types)) (fieldTypes_undocumented v.fields)
  | named | unstated => exact congrArg (Shape.keyed none name) (variantRecord_undocumented v)

/-- The shape of a variant without documentation, whatever its tagging. -/
theorem shape_undocumented (facts : DeclarationFacts) (v : Variant) :
    shape facts v.undocumented = (shape facts v).undocumented := by
  have hlabel : label facts.casing v.undocumented = label facts.casing v := rfl
  rw [shape, shape, hlabel]
  split
  · exact untagged_undocumented v
  · split
    · exact adjacent_undocumented _ _ v
    · exact internal_undocumented _ v
    · exact external_undocumented _ v

/-- The declaration of an enum without documentation on its variants and their fields. -/
theorem enum_undocumented (settings : Settings) (facts : DeclarationFacts) (name : String)
    (generics : List String) (variants : List Variant) :
    enum settings facts name generics (variants.map Variant.undocumented) =
      (enum settings facts name generics variants).undocumented := by
  have hserialized : (variants.map Variant.undocumented).filter isSerialized =
      (variants.filter isSerialized).map Variant.undocumented := by
    rw [List.filter_map]
    rfl
  have hkind (vs : List Variant) : isEnumeration settings facts (vs.map Variant.undocumented) =
      isEnumeration settings facts vs := by
    rw [isEnumeration, List.isEmpty_map, List.all_map]
    rfl
  unfold enum
  simp only [hserialized, hkind]
  split
  · rw [TypeScript.Declaration.undocumented, List.map_map, List.map_map]
    rfl
  · rw [TypeScript.Declaration.undocumented, List.map_map, List.map_map]
    congr 1
    exact List.map_congr_left fun v _ =>
      congrArg (TypeScript.Member.mk []) (shape_undocumented facts v)

/-- The declaration of a struct without documentation on its fields. -/
theorem struct_undocumented (facts : DeclarationFacts) (name : String) (generics : List String)
    (shape : Rust.StructShape) (fields : List Field) :
    struct facts name generics shape (fields.map Field.undocumented) =
      (struct facts name generics shape fields).undocumented := by
  have htarget : tupleTarget (fields.map Field.undocumented) = tupleTarget fields := by
    rw [tupleTarget, filter_undocumented fun _ => rfl, fieldTypes_undocumented]
    rfl
  cases shape with
  | named =>
    rw [struct, record_undocumented]
    rfl
  | tuple =>
    rw [struct, htarget]
    rfl
  | unit =>
    rw [struct, htarget]
    rfl

/-! ## Texts -/

section Items

variable (settings : Settings) {item : Item}

/-- The emission of a declaration has the text of its block. -/
theorem commented_declared (findings findings' : List Finding) (d : TypeScript.Declaration) :
    Commented (declared settings item.undocumented findings d.undocumented).text
      (declared settings item findings' d).text := by
  rw [text_declared, text_declared]
  exact TypeScript.commented_block settings.ambient ⟨item.preamble.docs, d⟩

/-- The declaration of a constant has no parts that are documented. -/
theorem undocumented_const? {name : String} {t : Rust.TypeExpr} {value : Option Rust.Expr}
    {d : TypeScript.Declaration} (h : const? settings name t value = some d) :
    d.undocumented = d := by
  unfold const? at h
  split at h
  · obtain rfl := Option.some.inj h
    rfl
  · obtain ⟨v, -, rfl⟩ := Option.map_eq_some_iff.1 h
    rfl

/-- A declaration is that of the item without documentation, with comments in it. The cases are
those of its body. -/
theorem commented_exported (facts : DeclarationFacts) (item : Item) :
    Commented (exported settings facts item.undocumented).text
      (exported settings facts item).text := by
  have hundocumented {body : Rust.Body} (hbody : item.body = body) :
      item.undocumented.body = body.undocumented := congrArg Rust.Body.undocumented hbody
  cases hbody : item.body with
  | struct shape fields =>
    rw [exported_struct settings facts hbody, exported_struct settings facts (hundocumented hbody),
      struct_undocumented]
    exact commented_declared settings [] [] _
  | enum variants =>
    rw [exported_enum settings facts hbody, exported_enum settings facts (hundocumented hbody),
      enum_undocumented]
    exact commented_declared settings _ _ _
  | const t value =>
    rw [exported, exported, hbody, hundocumented hbody]
    dsimp only [Rust.Body.undocumented]
    cases hconst : const? settings item.name t value with
    | none =>
      have hnone : const? settings item.undocumented.name t value = none := hconst
      rw [hnone]
      exact .refl ""
    | some d =>
      have hsome : const? settings item.undocumented.name t value = some d := hconst
      have hblock := TypeScript.commented_block settings.ambient ⟨item.preamble.docs, d⟩
      rw [TypeScript.Block.undocumented, undocumented_const? settings hconst] at hblock
      rw [hsome]
      exact hblock
  | typeAlias target =>
    rw [exported_typeAlias settings facts hbody,
      exported_typeAlias settings facts (hundocumented hbody)]
    exact commented_declared settings [] [] (.typeAlias item.name item.generics (type target))
  | bare =>
    rw [exported, exported, hbody, hundocumented hbody]
    exact .refl ""

/-- **Documentation only puts comments into the text of an item.** -/
theorem commented_ofItem (item : Item) :
    Commented (ofItem settings item.undocumented).text (ofItem settings item).text := by
  have hfacts : factsOfItem settings item.undocumented = factsOfItem settings item := rfl
  unfold ofItem
  rw [hfacts]
  dsimp only
  split
  · exact commented_exported settings _ item
  · exact .refl ""

end Items

end Translate

/-! ## Whole runs -/

/-- The text of an output goes on with a comment as it is written, or with nothing. -/
theorem Output.text_pushComment (o : Output) (indentation : Nat) (lines : List String) :
    (o.pushComment indentation lines).text =
      o.text ++ TypeScript.renderComment indentation lines := by
  unfold Output.pushComment
  dsimp only
  split
  · rename_i hempty
    rw [String.isEmpty_iff.1 hempty, String.append_empty]
  · exact text_push o _

open Translate TypeScript in
/-- **Documentation stays in comments.** Whatever the lines of documentation hold, they become
nothing or exactly one block comment on lines of its own, which is read as nothing and is what an
output goes on with. The text of a run differs from the text of the same items without
documentation by such comments only, each of them put in at the start of a line. -/
theorem translate_documentation (settings : Settings) (items : List Rust.Item) :
    (∀ blanks, renderComment blanks [] = "") ∧
    (∀ blanks line lines, IsBlockComment blanks (renderComment blanks (line :: lines))) ∧
    (∀ blanks lines, Written (renderComment blanks lines) []) ∧
    (∀ (o : Output) blanks lines,
      (o.pushComment blanks lines).text = o.text ++ renderComment blanks lines) ∧
    Commented (translate settings (items.map Rust.Item.undocumented)).text
      (translate settings items).text := by
  refine ⟨renderComment_nil, isBlockComment_renderComment, written_renderComment,
    Output.text_pushComment, ?_⟩
  rw [text_translate, text_translate, List.map_map]
  exact (Commented.concat (commented_ofItem settings) items).append_left _

end Ferrotype

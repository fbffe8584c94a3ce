/-
# Policies are short for renamings

A casing policy stands for a name at each member that has none of its own: the fields of a struct
and the variants of an enum under the policy of the item, the fields of a variant under the policy
of the variant. Where these names are spelled out and the policy is dropped, every field is the same
property, every variant has the same part in its enum, and the translation stays as it is
(`ofItem_spellOut`, `ofItem_spellOutFields`).
-/

import Ferrotype.Proofs.Translate.Policy

namespace Ferrotype
namespace Translate

open Rust (Attribute Body Field Item Variant)
open Serde (Casing DeclarationFacts Placement canRename)
open TypeScript (Declaration Member)

/-! ## Fields -/

section Fields

variable (way : Placement) {p : Casing}

/-- A field that says under which name a policy puts it. -/
def spellOutField (p : Casing) (f : Field) : Field :=
  f.withAttributes (way.rename p (f.name.getD "") f.preamble.attributes)

/-- Whether a field can say under which name a policy puts it. -/
def canRenameField (p : Casing) (f : Field) : Bool :=
  canRename p (f.name.getD "") f.preamble.attributes

/-- The facts of a field with its name spelled out are its own with that name. -/
theorem factsOf_spellOutField {f : Field} (h : canRenameField p f) :
    factsOf (spellOutField way p f) = { factsOf f with
      rename := some (Serde.memberName (some p) (factsOf f).rename (f.name.getD "")) } :=
  way.fieldFacts_rename h

/-- A field stays a property. -/
theorem isPlain_spellOutField {f : Field} (h : canRenameField p f) :
    isPlain (spellOutField way p f) = isPlain f := by
  rw [isPlain, factsOf_spellOutField way h, isPlain]

/-- A field stays merged. -/
theorem isMerged_spellOutField {f : Field} (h : canRenameField p f) :
    isMerged (spellOutField way p f) = isMerged f := by
  rw [isMerged, factsOf_spellOutField way h, isMerged]

/-- A field whose name is spelled out is the same property without a policy. -/
theorem property_spellOutField {f : Field} (h : canRenameField p f) :
    property none (spellOutField way p f) = property (some p) f := by
  rw [property, factsOf_spellOutField way h]
  rfl

/-- Fields whose names are spelled out are kept like before, and become the same. -/
theorem map_filter_spellOutField {γ : Type} {keeps : Field → Bool} {become become' : Field → γ}
    {fields : List Field} (hkeeps : ∀ f ∈ fields, keeps (spellOutField way p f) = keeps f)
    (hbecome : ∀ f ∈ fields, become' (spellOutField way p f) = become f) :
    ((fields.map (spellOutField way p)).filter keeps).map become' =
      (fields.filter keeps).map become := by
  refine map_filter_congr (List.forall₂_map_left_iff.2 (List.forall₂_same.2 fun f hf => ?_))
  exact ⟨hkeeps f hf, hbecome f hf⟩

/-- **Fields whose names are spelled out make up the same record.** -/
theorem record_spellOutField {fields : List Field} (h : ∀ f ∈ fields, canRenameField p f) :
    record none (fields.map (spellOutField way p)) = record (some p) fields := by
  have hproperties : ((fields.map (spellOutField way p)).filter isPlain).map (property none) =
      (fields.filter isPlain).map (property (some p)) :=
    map_filter_spellOutField way (fun f hf => isPlain_spellOutField way (h f hf))
      fun f hf => property_spellOutField way (h f hf)
  have hmerged : ((fields.map (spellOutField way p)).filter isMerged).map mergedType =
      (fields.filter isMerged).map mergedType :=
    map_filter_spellOutField way (fun f hf => isMerged_spellOutField way (h f hf)) fun _ _ => rfl
  rw [record, record, hproperties, hmerged]

/-- The target of a tuple does not depend on names. -/
theorem tupleTarget_spellOutField {fields : List Field} (h : ∀ f ∈ fields, canRenameField p f) :
    tupleTarget (fields.map (spellOutField way p)) = tupleTarget fields := by
  have hkeeps : ∀ f ∈ fields, (!(factsOf (spellOutField way p f)).skip) = !(factsOf f).skip :=
    fun f hf => by rw [factsOf_spellOutField way (h f hf)]
  have htypes : fieldTypes ((fields.map (spellOutField way p)).filter fun f => !(factsOf f).skip) =
      fieldTypes (fields.filter fun f => !(factsOf f).skip) :=
    map_filter_spellOutField way hkeeps fun _ _ => rfl
  rw [tupleTarget, tupleTarget, htypes]

end Fields

/-! ## Variants -/

section Variants

variable (way : Placement) {p : Casing}

/-- A variant that says under which name a policy puts it. -/
def spellOutVariant (p : Casing) (v : Variant) : Variant :=
  v.withAttributes (way.rename p v.name v.preamble.attributes)

/-- Whether a variant can say under which name a policy puts it. -/
def canRenameVariant (p : Casing) (v : Variant) : Bool :=
  canRename p v.name v.preamble.attributes

/-- A variant whose fields say under which names its own policy puts them, without this policy. -/
def spellOutFields (p : Casing) (v : Variant) : Variant :=
  { v.withAttributes (Serde.withoutPolicy v.preamble.attributes) with
    fields := v.fields.map (spellOutField way p) }

/-- The facts of a variant with its name spelled out are its own with that name. -/
theorem variantFactsOf_spellOutVariant {v : Variant} (h : canRenameVariant p v) :
    variantFactsOf (spellOutVariant way p v) = { variantFactsOf v with
      rename := some (Serde.memberName (some p) (variantFactsOf v).rename v.name) } :=
  way.variantFacts_rename h

/-- A variant whose fields have their names spelled out needs no policy. -/
theorem variantFactsOf_spellOutFields (v : Variant) :
    variantFactsOf (spellOutFields way p v) = (variantFactsOf v).withCasing none :=
  Serde.variantFacts_withoutPolicy v.preamble.attributes

/-- A variant whose name is spelled out has this name without a policy. -/
theorem label_spellOutVariant {v : Variant} (h : canRenameVariant p v) :
    label none (spellOutVariant way p v) = label (some p) v := by
  rw [label, variantFactsOf_spellOutVariant way h]
  rfl

/-- The record of a variant does not depend on its name. -/
theorem variantRecord_spellOutVariant {v : Variant} (h : canRenameVariant p v) :
    variantRecord (spellOutVariant way p v) = variantRecord v := by
  rw [variantRecord, variantFactsOf_spellOutVariant way h]
  rfl

/-- The label of a variant does not depend on its fields. -/
theorem label_spellOutFields (c : Option Casing) (v : Variant) :
    label c (spellOutFields way p v) = label c v := by
  rw [label, variantFactsOf_spellOutFields way]
  rfl

/-- A variant whose fields have their names spelled out has the same record without a policy. -/
theorem variantRecord_spellOutFields {v : Variant} (hp : (variantFactsOf v).casing = some p)
    (h : ∀ f ∈ v.fields, canRenameField p f) :
    variantRecord (spellOutFields way p v) = variantRecord v := by
  rw [variantRecord, variantRecord, variantFactsOf_spellOutFields way, hp]
  exact record_spellOutField way h

/-- The types of fields do not depend on names. -/
theorem fieldTypes_spellOutField (fields : List Field) :
    fieldTypes (fields.map (spellOutField way p)) = fieldTypes fields := by
  rw [fieldTypes, List.map_map]
  rfl

end Variants

/-! ## Items -/

section Items

variable (way : Placement) (settings : Settings) {p : Casing} {item : Item}

/-- The members of an item say under which names a policy puts them. -/
def spellOutBody (p : Casing) : Body → Body
  | .struct shape fields => .struct shape (fields.map (spellOutField way p))
  | .enum variants => .enum (variants.map (spellOutVariant way p))
  | body => body

/-- Whether the members of an item can say under which names a policy puts them. -/
def canRenameMembers (p : Casing) : Body → Bool
  | .struct _ fields => fields.all (canRenameField p)
  | .enum variants => variants.all (canRenameVariant p)
  | _ => true

/-- An item whose members say under which names its policy puts them, without this policy. -/
def spellOut (p : Casing) (item : Item) : Item :=
  (item.withAttributes (Serde.withoutPolicy item.preamble.attributes)).withBody
    (spellOutBody way p item.body)

/-- An item with names spelled out has its own facts, but for the policy. -/
theorem factsOfItem_spellOut (p : Casing) (item : Item) :
    factsOfItem settings (spellOut way p item) = (factsOfItem settings item).withCasing none :=
  Serde.declarationFacts_withoutPolicy settings.marker item.preamble.attributes

/-- A struct whose fields have their names spelled out is declared like under the policy. -/
theorem struct_spellOutField {facts : DeclarationFacts} (hp : facts.casing = some p)
    {fields : List Field} (h : ∀ f ∈ fields, canRenameField p f) (name : String)
    (generics : List String) (shape : Rust.StructShape) :
    struct (facts.withCasing none) name generics shape (fields.map (spellOutField way p)) =
      struct facts name generics shape fields := by
  cases shape with
  | named =>
    rw [struct, struct, hp]
    exact congrArg (Declaration.record name generics) (record_spellOutField way h)
  | tuple | unit => rw [struct, struct, tupleTarget_spellOutField way h]

/-- A variant whose name is spelled out has the same part as under the policy. -/
theorem samePart_spellOutVariant {facts : DeclarationFacts} (hp : facts.casing = some p)
    {v : Variant} (h : canRenameVariant p v) :
    SamePart id id facts (facts.withCasing none) v (spellOutVariant way p v) := by
  have hlabel : label facts.casing v = label none (spellOutVariant way p v) := by
    rw [hp]
    exact (label_spellOutVariant way h).symm
  have hshape : shape facts v = shape (facts.withCasing none) (spellOutVariant way p v) :=
    shape_congr (sameTagging_withCasing facts none) rfl hlabel rfl
      (variantRecord_spellOutVariant way h).symm
  refine ⟨⟨?_, rfl, rfl⟩, ?_, ?_⟩
  · rw [isSerialized, isSerialized, variantFactsOf_spellOutVariant way h]
  · exact congrArg (Member.mk v.preamble.docs) hshape
  · rw [enumerator, hlabel]
    rfl

/-- A variant whose fields have their names spelled out has the same part as under its policy. -/
theorem samePart_spellOutFields (facts : DeclarationFacts) {v : Variant}
    (hp : (variantFactsOf v).casing = some p) (h : ∀ f ∈ v.fields, canRenameField p f) :
    SamePart id id facts facts v (spellOutFields way p v) := by
  have hlabel := label_spellOutFields way (p := p) facts.casing v
  have hshape : shape facts v = shape facts (spellOutFields way p v) :=
    shape_congr ⟨rfl, rfl, rfl⟩ rfl hlabel.symm (fieldTypes_spellOutField way v.fields).symm
      (variantRecord_spellOutFields way hp h).symm
  refine ⟨⟨?_, rfl, rfl⟩, ?_, ?_⟩
  · rw [isSerialized, isSerialized, variantFactsOf_spellOutFields]
    rfl
  · exact congrArg (Member.mk v.preamble.docs) hshape
  · rw [enumerator, ← hlabel]
    rfl

/-- **A policy is short for renamings**: an item gives the same if the names of its members are
spelled out and its policy is dropped. -/
theorem ofItem_spellOut (hp : (factsOfItem settings item).casing = some p)
    (h : canRenameMembers p item.body) :
    ofItem settings item = ofItem settings (spellOut way p item) := by
  rw [ofItem, ofItem, factsOfItem_spellOut, spellOut]
  refine if_congr Iff.rfl ?_ rfl
  cases hbody : item.body with
  | struct shape fields =>
    rw [hbody] at h
    rw [exported_struct settings _ hbody, exported_struct settings _ rfl]
    exact congrArg (declared settings item [])
      (struct_spellOutField way hp (List.all_eq_true.1 h) item.name item.generics shape).symm
  | enum variants =>
    rw [hbody] at h
    refine (agreeUpTo_enum settings (sameTagging_withCasing _ none) hbody _ ?_).eq
    refine List.forall₂_map_right_iff.2 (List.forall₂_same.2 fun v hv => ?_)
    exact samePart_spellOutVariant way hp (List.all_eq_true.1 h v hv)
  | _ =>
    exact exported_of_noMembers settings _ _ _ hbody (fun _ _ => Body.noConfusion)
      fun _ => Body.noConfusion

/-- **The policy of a variant is short for renamings** of its fields. -/
theorem ofItem_spellOutFields {before after : List Variant} {v : Variant}
    (hbody : item.body = .enum (before ++ v :: after)) (hp : (variantFactsOf v).casing = some p)
    (h : ∀ f ∈ v.fields, canRenameField p f) :
    ofItem settings item =
      ofItem settings (item.withBody (.enum (before ++ spellOutFields way p v :: after))) := by
  suffices hagree : AgreeUpTo (Declaration.mapParts id id id) settings item _ _ from hagree.eq
  refine agreeUpTo_ofItem settings rfl ?_
  refine agreeUpTo_enum settings ⟨rfl, rfl, rfl⟩ hbody item.preamble.attributes ?_
  exact forall₂_at (samePart_self _) (samePart_spellOutFields way _ hp h) before after

end Items

end Translate

/-! ## Whole runs -/

section Runs

open Rust (Attribute Item Variant)
open Serde (Casing Placement)
open Translate

/-- An item that gives the same can stand in the place of another of its kind. -/
theorem translate_congr_at (settings : Settings) {item item' : Item}
    (hitem : ofItem settings item = ofItem settings item') (hname : item.name = item'.name)
    (hword : item.body.word = item'.body.word)
    (hexported : (factsOfItem settings item).exported = (factsOfItem settings item').exported)
    (before after : List Item) :
    translate settings (before ++ item :: after) =
      translate settings (before ++ item' :: after) := by
  have hnote : encounter settings item = encounter settings item' := by
    rw [encounter, encounter, hname, hword, hexported]
  rw [translate, translate, ofItems, ofItems]
  simp only [List.map_append, List.map_cons, hitem, hnote]

/-- **A casing policy is short for renamings.** In every file and under all settings, the output and
the report stay the same if the policy of an item is dropped and each of its members that has no
name of its own is given an attribute with the name that the policy made for it, anywhere among its
attributes; the same holds for the policy of a variant and its fields. A new name must not be taken
for the nested form, and a renaming that is there must have a value.

So the policy of an item changes no more than the names of its properties, or those of its variants:
of two policies, each gives the same declaration up to these names. The policy of a variant changes
no more than the names of properties in its record. -/
theorem translate_spellOut (way : Placement) (settings : Settings) (xs ys : List Item)
    (item : Item) :
    (∀ p, (factsOfItem settings item).casing = some p → canRenameMembers p item.body →
      translate settings (xs ++ spellOut way p item :: ys) =
        translate settings (xs ++ item :: ys)) ∧
    (∀ (before after : List Variant) (v : Variant) (p : Casing),
      item.body = .enum (before ++ v :: after) → (variantFactsOf v).casing = some p →
      (∀ f ∈ v.fields, canRenameField p f) →
      translate settings
          (xs ++ item.withBody (.enum (before ++ spellOutFields way p v :: after)) :: ys) =
        translate settings (xs ++ item :: ys)) ∧
    (∀ (attributes : List Attribute) (c : Option Casing),
      Serde.declarationFacts settings.marker attributes =
        (factsOfItem settings item).withCasing c →
      AgreeUpTo TypeScript.Declaration.unlabelled settings item (ofItem settings item)
        (ofItem settings (item.withAttributes attributes))) ∧
    ∀ (before after : List Variant) (v : Variant) (attributes : List Attribute)
      (c : Option Casing), item.body = .enum (before ++ v :: after) →
      Serde.variantFacts attributes = (variantFactsOf v).withCasing c →
      AgreeUpTo TypeScript.Declaration.unnamed settings item (ofItem settings item)
        (ofItem settings (item.withBody
          (.enum (before ++ v.withAttributes attributes :: after)))) := by
  refine ⟨fun p hp h => ?_, fun before after v p hbody hp h => ?_,
    fun attributes c h => agreeUpTo_withAttributes settings h,
    fun before after v attributes c hbody h => agreeUpTo_withVariant settings hbody h⟩
  · have hword : (spellOut way p item).body.word = item.body.word := by
      rw [spellOut]
      cases item.body <;> rfl
    have hfacts := factsOfItem_spellOut way settings p item
    refine translate_congr_at settings (ofItem_spellOut way settings hp h).symm rfl hword ?_ xs ys
    rw [hfacts]
    rfl
  · refine translate_congr_at settings (ofItem_spellOutFields way settings hbody hp h).symm rfl ?_
      rfl xs ys
    rw [hbody]
    rfl

/-- A variant that is renamed. -/
def quitVariant : Variant where
  name := "Quit"
  shape := .unit
  fields := []
  discriminant := none
  preamble := ⟨[], [Serde.directive "rename" "stop"]⟩

/-- A variant with one field, for which it has a policy. -/
def moveVariant : Variant where
  name := "MoveTo"
  shape := .named
  fields := [⟨some "new_x", .primitive "u8", ⟨[], []⟩⟩]
  discriminant := none
  preamble := ⟨[], [Serde.directive "rename_all" "kebab-case"]⟩

/-- A tagged enum with a policy for its variants. -/
def messageEnum : Item where
  name := "Message"
  generics := []
  preamble := ⟨[], [⟨Settings.defaultMarker, []⟩, Serde.directive "tag" "type",
    Serde.directive "rename_all" "camelCase"]⟩
  body := .enum ([quitVariant] ++ moveVariant :: [])

/-- The policies of an enum and of its variant, spelled out one and the other, and dropped. -/
theorem translate_spellOut_messageEnum :
    translate default [spellOut .last .camel messageEnum] = translate default [messageEnum] ∧
      translate default [messageEnum.withBody
        (.enum ([quitVariant] ++ spellOutFields .last .kebab moveVariant :: []))] =
          translate default [messageEnum] ∧
      AgreeUpTo TypeScript.Declaration.unlabelled default messageEnum (ofItem default messageEnum)
        (ofItem default (messageEnum.withAttributes
          (Serde.withoutPolicy messageEnum.preamble.attributes))) ∧
      AgreeUpTo TypeScript.Declaration.unnamed default messageEnum (ofItem default messageEnum)
        (ofItem default (messageEnum.withBody (.enum ([quitVariant] ++ moveVariant.withAttributes
          (Serde.withoutPolicy moveVariant.preamble.attributes) :: [])))) ∧
      (translate default [messageEnum]).text = marker ++ "\n\nexport type Message =\n" ++
        "  | \x7b type: \"stop\" \x7d\n" ++
        "  | \x7b\n      type: \"moveTo\";\n      \"new-x\": number;\n    \x7d;\n" := by
  obtain ⟨hitem, hvariant, hpolicy, hownPolicy⟩ :=
    translate_spellOut .last default [] [] messageEnum
  refine ⟨?_, ?_, ?_, ?_, by decide +kernel⟩
  · exact hitem .camel (by decide +kernel) (by decide +kernel)
  · exact hvariant [quitVariant] [] moveVariant .kebab rfl (by decide +kernel)
      (List.forall_mem_singleton.2 (by decide +kernel))
  · exact hpolicy _ none (Serde.declarationFacts_withoutPolicy _ _)
  · exact hownPolicy [quitVariant] [] moveVariant _ none rfl (Serde.variantFacts_withoutPolicy _)

end Runs
end Ferrotype

/-
# What the settings of a run change

Three settings say what a generated file looks like, and each changes one thing only. Debugging
changes nothing. An ambient file has the same declarations of types, without the word that exports
them or with another one before an enumeration, and it declares every constant. With enumerations,
the enums of unit variants without tagging are declared in another way, under the same labels, and
everything else stays as it is.

`translate_settings` says so for two runs on the same items that differ in one setting.
-/

import Ferrotype.Proofs.Translate.Block
import Ferrotype.Proofs.TypeScript.Union

namespace Ferrotype
namespace TypeScript

/-! ## The word before a declaration -/

/-- A declaration of a type starts with a keyword, before which it may be exported. -/
def Declaration.OfType (d : Declaration) (keyword rest : String) : Prop :=
  (keyword = "interface " ∨ keyword = "type ") ∧
    ∀ ambient, d.render ambient = exportWord ambient ++ keyword ++ rest

/-- A record is an interface or a type, with the same text behind its keyword. -/
theorem ofType_record (name : String) (generics : List String) (r : Record) :
    ∃ keyword rest, (Declaration.record name generics r).OfType keyword rest := by
  have hrender (ambient : Bool) : (Declaration.record name generics r).render ambient =
      (if r.merged.isEmpty then
        exportWord ambient ++ "interface " ++ name ++ renderGenerics generics ++ " "
      else
        exportWord ambient ++ "type " ++ name ++ renderGenerics generics ++ " = " ++
          Text.concat (r.merged.map fun type => type.render ++ " & ")) ++
        renderObject 0 none r.properties ++ "\n" := rfl
  cases hmerged : r.merged.isEmpty with
  | true =>
    refine ⟨_, name ++ (renderGenerics generics ++ (" " ++
      (renderObject 0 none r.properties ++ "\n"))), .inl rfl, fun ambient => ?_⟩
    rw [hrender, hmerged, if_pos rfl]
    simp only [String.append_assoc]
  | false =>
    refine ⟨_, name ++ (renderGenerics generics ++ (" = " ++
      (Text.concat (r.merged.map fun type => type.render ++ " & ") ++
        (renderObject 0 none r.properties ++ "\n")))), .inr rfl, fun ambient => ?_⟩
    rw [hrender, hmerged, if_neg Bool.false_ne_true]
    simp only [String.append_assoc]

/-- An alias is a type. -/
theorem ofType_typeAlias (name : String) (generics : List String) (target : TypeExpr) :
    ∃ keyword rest, (Declaration.typeAlias name generics target).OfType keyword rest := by
  refine ⟨_, name ++ (renderGenerics generics ++ (" = " ++ (target.render ++ ";\n"))), .inr rfl,
    fun ambient => ?_⟩
  have hrender : (Declaration.typeAlias name generics target).render ambient =
      exportWord ambient ++ "type " ++ name ++ renderGenerics generics ++ " = " ++ target.render ++
        ";\n" := rfl
  rw [hrender]
  simp only [String.append_assoc]

/-- A union is a type. -/
theorem ofType_union (name : String) (generics : List String) (members : List Member) :
    ∃ keyword rest, (Declaration.union name generics members).OfType keyword rest := by
  refine ⟨_, name ++ (renderGenerics generics ++ (" =" ++
    if members.isEmpty then " never;\n" else "\n" ++ renderMembers members)), .inr rfl,
    fun ambient => ?_⟩
  have hrender : (Declaration.union name generics members).render ambient =
      exportWord ambient ++ "type " ++ name ++ renderGenerics generics ++ " =" ++
        if members.isEmpty then " never;\n" else "\n" ++ renderMembers members := rfl
  rw [hrender]
  simp only [String.append_assoc]

/-- An enumeration is exported or declared. -/
theorem render_constEnum (name : String) (enumerators : List Enumerator) :
    ∃ rest, ∀ ambient, (Declaration.constEnum name enumerators).render ambient =
      (if ambient then "declare " else "export ") ++ "const enum " ++ rest := by
  refine ⟨name ++ (" \x7b\n" ++ (Text.concat (enumerators.map Enumerator.render) ++ "\x7d\n")),
    fun ambient => ?_⟩
  have hrender : (Declaration.constEnum name enumerators).render ambient =
      (if ambient then "declare " else "export ") ++ "const enum " ++ name ++ " \x7b\n" ++
        Text.concat (enumerators.map Enumerator.render) ++ "\x7d\n" := rfl
  rw [hrender]
  simp only [String.append_assoc]

end TypeScript

namespace Translate

open Rust (Item Variant)
open TypeScript (renderComment)

/-! ## Emissions of declarations -/

section Declared

variable (settings : Settings) (item : Item) (findings : List Finding)
  (d : TypeScript.Declaration)

/-- The emission of a declaration, behind some findings. -/
def declared : Emission :=
  { Emission.empty with findings := findings } ++ ofBlock settings item.name item.preamble.docs d

/-- The text of a declaration is its comment and the declaration. -/
theorem text_declared : (declared settings item findings d).text =
    "\n" ++ renderComment 0 item.preamble.docs ++ d.render settings.ambient := by
  rw [declared, Emission.text_append, Emission.empty, String.empty_append]
  rfl

theorem unprocessed_declared : (declared settings item findings d).unprocessed = [] := rfl

/-- The findings of a declaration are those given and one for each foreign type in it. -/
theorem findings_declared : (declared settings item findings d).findings =
    findings ++ unmapped item.name d.foreigns := rfl

variable {item} (facts : Serde.DeclarationFacts)

/-- What is declared for a struct. -/
theorem exported_struct {shape : Rust.StructShape} {fields : List Rust.Field}
    (hbody : item.body = .struct shape fields) : exported settings facts item =
      declared settings item [] (struct facts item.name item.generics shape fields) := by
  rw [exported, hbody]
  exact (Emission.empty_append _).symm

/-- What is declared for an enum. -/
theorem exported_enum {variants : List Variant} (hbody : item.body = .enum variants) :
    exported settings facts item = declared settings item (skippedVariants item.name variants)
      (enum settings facts item.name item.generics variants) := by
  rw [exported, hbody]
  rfl

/-- What is declared for an alias. -/
theorem exported_typeAlias {target : Rust.TypeExpr} (hbody : item.body = .typeAlias target) :
    exported settings facts item =
      declared settings item [] (.typeAlias item.name item.generics (type target)) := by
  rw [exported, hbody]
  exact (Emission.empty_append _).symm

end Declared

/-! ## Ambient files -/

/-- What an item leaves in a file that is not ambient and in one that is. -/
inductive Alike (settings : Settings) (item : Item) (e e' : Emission) : Prop
  | nothing (unmarked : (factsOfItem settings item).exported = false ∨ item.body = .bare)
    (empty : e = .empty) (empty' : e' = .empty)
  /-- A struct, a type alias or a union loses the word before its keyword. -/
  | type (keyword rest : String) (kind : keyword = "interface " ∨ keyword = "type ")
    (noConst : ∀ t value, item.body ≠ .const t value)
    (noEnumeration : ∀ variants, item.body = .enum variants →
      isEnumeration settings (factsOfItem settings item) (variants.filter isSerialized) = false)
    (text : e.text = "\n" ++ renderComment 0 item.preamble.docs ++ "export " ++ keyword ++ rest)
    (text' : e'.text = "\n" ++ renderComment 0 item.preamble.docs ++ keyword ++ rest)
    (unprocessed : e.unprocessed = []) (unprocessed' : e'.unprocessed = [])
    (findings : e'.findings = e.findings)
  /-- An enumeration is declared instead of exported. -/
  | enumeration (rest : String) (variants : List Variant) (body : item.body = .enum variants)
    (kind : isEnumeration settings (factsOfItem settings item) (variants.filter isSerialized))
    (text : e.text =
      "\n" ++ renderComment 0 item.preamble.docs ++ "export " ++ "const enum " ++ rest)
    (text' : e'.text =
      "\n" ++ renderComment 0 item.preamble.docs ++ "declare " ++ "const enum " ++ rest)
    (unprocessed : e.unprocessed = []) (unprocessed' : e'.unprocessed = [])
    (findings : e'.findings = e.findings)
  /-- A constant is declared, also if its value cannot be written. -/
  | const (t : Rust.TypeExpr) (value : Option Rust.Expr) (body : item.body = .const t value)
    (text' : e'.text = "\n" ++ renderComment 0 item.preamble.docs ++
      ("declare const " ++ item.name ++ ": " ++ (Translate.type t).render ++ ";\n"))
    (unprocessed' : e'.unprocessed = [])

section Ambient

variable (settings : Settings) (item : Item)

/-- The settings with a choice about ambient files. -/
def withAmbient (ambient : Bool) : Settings := { settings with ambient := ambient }

variable {item}

/-- A declaration of a type differs by `export` or `declare` in front of its keyword, and by nothing
else. -/
theorem alike_ofType {d : TypeScript.Declaration} (h : ∃ keyword rest, d.OfType keyword rest)
    (noConst : ∀ t value, item.body ≠ .const t value)
    (noEnumeration : ∀ variants, item.body = .enum variants →
      isEnumeration settings (factsOfItem settings item) (variants.filter isSerialized) = false)
    (findings : List Finding) :
    Alike settings item (declared (withAmbient settings false) item findings d)
      (declared (withAmbient settings true) item findings d) := by
  obtain ⟨keyword, rest, hkeyword, hrender⟩ := h
  refine .type keyword rest hkeyword noConst noEnumeration ?_ ?_ (unprocessed_declared ..)
    (unprocessed_declared ..) ((findings_declared ..).trans (findings_declared ..).symm)
  · rw [text_declared, hrender]
    simp only [withAmbient, TypeScript.exportWord, Bool.false_eq_true, if_false,
      String.append_assoc]
  · rw [text_declared, hrender]
    simp only [withAmbient, TypeScript.exportWord, if_true, String.empty_append,
      String.append_assoc]

/-- A constant enum differs by the same words. -/
theorem alike_constEnum {variants : List Variant} (hbody : item.body = .enum variants)
    (hkind : isEnumeration settings (factsOfItem settings item) (variants.filter isSerialized))
    (enumerators : List TypeScript.Enumerator) (findings : List Finding) :
    Alike settings item
      (declared (withAmbient settings false) item findings (.constEnum item.name enumerators))
      (declared (withAmbient settings true) item findings (.constEnum item.name enumerators)) := by
  obtain ⟨rest, hrender⟩ := TypeScript.render_constEnum item.name enumerators
  refine .enumeration rest variants hbody hkind ?_ ?_ (unprocessed_declared ..)
    (unprocessed_declared ..) ((findings_declared ..).trans (findings_declared ..).symm)
  · rw [text_declared, hrender]
    simp only [withAmbient, Bool.false_eq_true, if_false, String.append_assoc]
  · rw [text_declared, hrender]
    simp only [withAmbient, if_true, String.append_assoc]

/-- **What ambient files change**, item by item. -/
theorem alike_ofItem (item : Item) :
    Alike settings item (ofItem (withAmbient settings false) item)
      (ofItem (withAmbient settings true) item) := by
  have hfacts (ambient : Bool) : factsOfItem (withAmbient settings ambient) item =
      factsOfItem settings item := rfl
  simp only [ofItem, hfacts]
  cases hexported : (factsOfItem settings item).exported with
  | false => exact .nothing (.inl hexported) rfl rfl
  | true =>
    simp only [if_true]
    cases hbody : item.body with
    | struct shape fields =>
      simp only [exported_struct _ _ hbody]
      refine alike_ofType settings ?_ (by simp [hbody]) (by simp [hbody]) []
      cases shape with
      | named => exact TypeScript.ofType_record _ _ _
      | tuple => exact TypeScript.ofType_typeAlias _ _ _
      | unit => exact TypeScript.ofType_typeAlias _ _ _
    | enum variants =>
      have henum (ambient : Bool) : enum (withAmbient settings ambient) (factsOfItem settings item)
          item.name item.generics variants =
            enum settings (factsOfItem settings item) item.name item.generics variants := rfl
      simp only [exported_enum _ _ hbody, henum]
      simp only [enum]
      cases hkind : isEnumeration settings (factsOfItem settings item)
          (variants.filter isSerialized) with
      | true => exact alike_constEnum settings hbody hkind _ _
      | false =>
        refine alike_ofType settings (TypeScript.ofType_union _ _ _) (by simp [hbody]) ?_ _
        intro variants' hbody'
        rw [hbody] at hbody'
        obtain rfl := Rust.Body.enum.inj hbody'
        exact hkind
    | const t value =>
      simp only [exported, hbody]
      exact .const t value hbody rfl rfl
    | typeAlias target =>
      simp only [exported_typeAlias _ _ hbody]
      exact alike_ofType settings (TypeScript.ofType_typeAlias _ _ _) (by simp [hbody])
        (by simp [hbody]) []
    | bare =>
      simp only [exported, hbody]
      exact .nothing (.inr hbody) rfl rfl

end Ambient

/-! ## Enumerations -/

/-- Whether an item is an enum that enumerations are for: exported, without tagging, and with unit
variants only, at least one of which is serialized. -/
def ForEnumeration (settings : Settings) (item : Item) (variants : List Variant) : Prop :=
  (factsOfItem settings item).exported ∧ item.body = .enum variants ∧
    (factsOfItem settings item).tag = none ∧ (factsOfItem settings item).untagged = false ∧
    variants.filter isSerialized ≠ [] ∧ ∀ v ∈ variants.filter isSerialized, v.shape = .unit

section ConstEnums

variable (settings : Settings) {item : Item} {variants : List Variant}

/-- The settings with a choice about enumerations. -/
def withConstEnums (constEnums : Bool) : Settings := { settings with constEnums := constEnums }

/-- Only where constant enums are wanted is an enum one. -/
theorem isEnumeration_withConstEnums (constEnums : Bool) (facts : Serde.DeclarationFacts)
    (vs : List Variant) :
    isEnumeration (withConstEnums settings constEnums) facts vs =
      (constEnums && isEnumeration (withConstEnums settings true) facts vs) := by
  simp [isEnumeration, withConstEnums, Bool.and_assoc]

/-- An enum can be one if it is externally tagged and its variants, at least one, hold nothing. -/
theorem isEnumeration_iff (facts : Serde.DeclarationFacts) (vs : List Variant) :
    isEnumeration (withConstEnums settings true) facts vs ↔
      facts.tag = none ∧ facts.untagged = false ∧ vs ≠ [] ∧ ∀ v ∈ vs, v.shape = .unit := by
  simp [isEnumeration, withConstEnums, and_assoc]

/-- In the union of its enum, a unit variant without tagging is its label. -/
theorem shape_unit {facts : Serde.DeclarationFacts} (htag : facts.tag = none)
    (huntagged : facts.untagged = false) {v : Variant} (hunit : v.shape = .unit) :
    shape facts v = .label (label facts.casing v) := by
  simp [shape, external, htag, huntagged, hunit]

/-- **An enum that enumerations are for has two forms**, one under each choice. -/
theorem ofItem_forEnumeration (h : ForEnumeration settings item variants) (constEnums : Bool) :
    ofItem (withConstEnums settings constEnums) item =
      declared (withConstEnums settings constEnums) item (skippedVariants item.name variants)
        (if constEnums then
          .constEnum item.name
            ((variants.filter isSerialized).map (enumerator (factsOfItem settings item)))
        else
          .union item.name item.generics
            ((variants.filter isSerialized).map (member (factsOfItem settings item)))) := by
  obtain ⟨hexported, hbody, hkind⟩ := h
  have hfacts : factsOfItem (withConstEnums settings constEnums) item =
      factsOfItem settings item := rfl
  simp only [ofItem, hfacts, hexported, if_true, exported_enum _ _ hbody, enum]
  rw [isEnumeration_withConstEnums, (isEnumeration_iff settings _ _).2 hkind, Bool.and_true]

/-- **What enumerations do not change**: every item that they are not for. -/
theorem ofItem_notForEnumeration (h : ∀ variants, ¬ ForEnumeration settings item variants) :
    ofItem (withConstEnums settings true) item = ofItem (withConstEnums settings false) item := by
  have hfacts (constEnums : Bool) : factsOfItem (withConstEnums settings constEnums) item =
      factsOfItem settings item := rfl
  simp only [ofItem, hfacts]
  cases hexported : (factsOfItem settings item).exported with
  | false => rfl
  | true =>
    simp only [if_true]
    cases hbody : item.body with
    | struct shape fields =>
      rw [exported_struct _ _ hbody, exported_struct _ _ hbody]
      rfl
    | enum variants =>
      have hkind (constEnums : Bool) : isEnumeration (withConstEnums settings constEnums)
          (factsOfItem settings item) (variants.filter isSerialized) = false := by
        rw [isEnumeration_withConstEnums, Bool.and_eq_false_iff]
        refine .inr (Bool.eq_false_iff.2 fun hkind => h variants ⟨hexported, hbody, ?_⟩)
        exact (isEnumeration_iff settings _ _).1 hkind
      rw [exported_enum _ _ hbody, exported_enum _ _ hbody]
      simp only [enum, hkind]
      rfl
    | const t value =>
      rw [exported, exported, hbody]
      rfl
    | typeAlias target =>
      rw [exported_typeAlias _ _ hbody, exported_typeAlias _ _ hbody]
      rfl
    | bare =>
      rw [exported, exported, hbody]

/-- The two forms of an enum that enumerations are for. Each has the same variants in the same
order; where a variant has no discriminant, its value in one form is its literal in the other. -/
structure TwoForms (settings : Settings) (item : Item) (serialized : List Variant)
    (union enumeration : Emission) : Prop where
  text : union.text = "\n" ++ renderComment 0 item.preamble.docs ++
    (TypeScript.Declaration.aliasHead settings.ambient item.name item.generics ++ " =" ++
      Text.concat ((serialized.map (member (factsOfItem settings item))).map fun m =>
        "\n" ++ m.render) ++ ";\n")
  text' : enumeration.text = "\n" ++ renderComment 0 item.preamble.docs ++
    ((if settings.ambient then "declare " else "export ") ++ "const enum " ++ item.name ++
      " \x7b\n" ++ Text.concat ((serialized.map (enumerator (factsOfItem settings item))).map
        TypeScript.Enumerator.render) ++ "\x7d\n")
  literals : (serialized.filter (·.discriminant.isNone)).map
      (fun v => (enumerator (factsOfItem settings item) v).value) =
    (serialized.filter (·.discriminant.isNone)).map
      fun v => (member (factsOfItem settings item) v).shape.render
  quoted : ∀ v ∈ serialized, (member (factsOfItem settings item) v).shape.render =
    Text.literal (label (factsOfItem settings item).casing v)
  discriminants : ∀ v ∈ serialized, ∀ discriminant, v.discriminant = some discriminant →
    (enumerator (factsOfItem settings item) v).value = discriminant

/-- An enumeration becomes a union of literals or a constant enum. -/
theorem twoForms_ofItem (h : ForEnumeration settings item variants) :
    TwoForms settings item (variants.filter isSerialized)
      (ofItem (withConstEnums settings false) item) (ofItem (withConstEnums settings true) item) := by
  obtain ⟨-, -, htag, huntagged, hsome, hunit⟩ := id h
  have hquoted : ∀ v ∈ variants.filter isSerialized,
      (member (factsOfItem settings item) v).shape.render =
        Text.literal (label (factsOfItem settings item).casing v) := fun v hv => by
    rw [member, shape_unit htag huntagged (hunit v hv)]
    rfl
  refine ⟨?_, ?_, ?_, hquoted, ?_⟩
  · rw [ofItem_forEnumeration settings h, if_neg Bool.false_ne_true, text_declared,
      TypeScript.render_union, TypeScript.unionText, if_neg (by simpa using hsome)]
    rfl
  · rw [ofItem_forEnumeration settings h, if_pos rfl, text_declared]
    rfl
  · refine List.map_congr_left fun v hv => ?_
    obtain ⟨hv, hnone⟩ := List.mem_filter.1 hv
    rw [hquoted v hv, enumerator, Option.isNone_iff_eq_none.1 hnone]
    rfl
  · intro v _ discriminant hdiscriminant
    rw [enumerator, hdiscriminant]
    rfl

/-- Neither form has types without counterpart. -/
theorem findings_forEnumeration (h : ForEnumeration settings item variants) (constEnums : Bool) :
    (ofItem (withConstEnums settings constEnums) item).findings =
      skippedVariants item.name variants := by
  obtain ⟨-, -, htag, huntagged, -, hunit⟩ := id h
  rw [ofItem_forEnumeration settings h, findings_declared]
  cases constEnums with
  | true => exact List.append_nil _
  | false =>
    have hforeigns : (TypeScript.Declaration.union item.name item.generics
        ((variants.filter isSerialized).map (member (factsOfItem settings item)))).foreigns = [] := by
      refine List.flatMap_eq_nil_iff.2 fun m hm => ?_
      obtain ⟨v, hv, rfl⟩ := List.mem_map.1 hm
      rw [member, shape_unit htag huntagged (hunit v hv)]
      rfl
    rw [if_neg Bool.false_ne_true, hforeigns]
    exact List.append_nil _

/-- The choice about enumerations changes neither what is found nor what is left out. -/
theorem findings_withConstEnums (item : Item) :
    (ofItem (withConstEnums settings true) item).findings =
        (ofItem (withConstEnums settings false) item).findings ∧
      (ofItem (withConstEnums settings true) item).unprocessed =
        (ofItem (withConstEnums settings false) item).unprocessed := by
  by_cases h : ∃ variants, ForEnumeration settings item variants
  · obtain ⟨variants, h⟩ := h
    refine ⟨?_, ?_⟩
    · rw [findings_forEnumeration settings h, findings_forEnumeration settings h]
    · rw [ofItem_forEnumeration settings h, ofItem_forEnumeration settings h]
      rfl
  · rw [ofItem_notForEnumeration settings (not_exists.1 h)]
    exact ⟨rfl, rfl⟩

end ConstEnums

end Translate

/-! ## Whole runs -/

section Runs

open Translate

/-- **Each setting changes one thing only.** The text of a run is the marker line and then what the
items leave, so two runs on the same items are compared item by item. Debugging changes neither the
output nor the report. An ambient file differs in the words before the declarations of types, it
declares every constant, and nothing is left out of it. The choice about enumerations changes the
blocks of the enums that they are for, and nothing else. -/
theorem translate_settings (settings : Settings) (items : List Rust.Item) :
    (∀ chosen : Settings, (translate chosen items).text =
      marker ++ "\n" ++ Text.concat (items.map fun item => (ofItem chosen item).text)) ∧
    (∀ debug : Bool,
      translate { settings with debug := debug } items = translate settings items) ∧
    (∀ item, Alike settings item (ofItem (withAmbient settings false) item)
      (ofItem (withAmbient settings true) item)) ∧
    (translate (withAmbient settings true) items).unprocessed = [] ∧
    (translate (withConstEnums settings true) items).unprocessed =
      (translate (withConstEnums settings false) items).unprocessed ∧
    (translate (withConstEnums settings true) items).findings =
      (translate (withConstEnums settings false) items).findings ∧
    (∀ item, (∀ variants, ¬ ForEnumeration settings item variants) →
      ofItem (withConstEnums settings true) item = ofItem (withConstEnums settings false) item) ∧
    ∀ item variants, ForEnumeration settings item variants →
      TwoForms settings item (variants.filter isSerialized)
        (ofItem (withConstEnums settings false) item)
        (ofItem (withConstEnums settings true) item) := by
  refine ⟨fun chosen => text_translate chosen items, fun debug => rfl,
    alike_ofItem settings, ?_, ?_, ?_, fun item h => ofItem_notForEnumeration settings h,
    fun item variants h => twoForms_ofItem settings h⟩
  · rw [unprocessed_translate, List.flatMap_eq_nil_iff]
    intro item _
    cases alike_ofItem settings item with
    | nothing _ _ hempty => rw [hempty]; rfl
    | type _ _ _ _ _ _ _ _ hnone _ => exact hnone
    | enumeration _ _ _ _ _ _ _ hnone _ => exact hnone
    | const _ _ _ _ hnone => exact hnone
  · rw [unprocessed_translate, unprocessed_translate]
    exact List.flatMap_congr fun item _ => (findings_withConstEnums settings item).2
  · rw [findings_translate, findings_translate]
    exact List.flatMap_congr fun item _ => (findings_withConstEnums settings item).1

/-- A variant without payload. -/
def unitVariant (name : String) (discriminant : Option String) : Rust.Variant :=
  ⟨name, .unit, [], discriminant, ⟨[], []⟩⟩

/-- An exported enum of two unit variants, one of which has a discriminant. -/
def levelEnum : Rust.Item where
  name := "Level"
  generics := []
  preamble := ⟨[], [⟨Settings.defaultMarker, []⟩]⟩
  body := .enum [unitVariant "Low" none, unitVariant "High" (some "10")]

/-- An enum of unit variants has two forms, and a file with one of them differs in its block. -/
theorem translate_settings_levelEnum :
    let variants := [unitVariant "Low" none, unitVariant "High" (some "10")]
    ForEnumeration default levelEnum variants ∧
      TwoForms default levelEnum variants (ofItem (withConstEnums default false) levelEnum)
        (ofItem (withConstEnums default true) levelEnum) ∧
      (translate (withConstEnums default false) [levelEnum]).text =
        marker ++ "\n\nexport type Level =\n  | \"Low\"\n  | \"High\";\n" ∧
      (translate (withConstEnums default true) [levelEnum]).text =
        marker ++ "\n\nexport const enum Level \x7b\n  Low = \"Low\",\n  High = 10,\n\x7d\n" := by
  intro variants
  obtain ⟨htext, -, -, -, -, -, -, hforms⟩ := translate_settings default [levelEnum]
  have hfor : ForEnumeration default levelEnum variants :=
    ⟨by decide, rfl, by decide, by decide, List.cons_ne_nil _ _, by decide⟩
  have hserialized : variants.filter isSerialized = variants := rfl
  have htwo := hforms levelEnum variants hfor
  rw [hserialized] at htwo
  refine ⟨hfor, htwo, ?_, ?_⟩
  · rw [htext, List.map_singleton, htwo.text]
    decide
  · rw [htext, List.map_singleton, htwo.text']
    decide

end Runs
end Ferrotype

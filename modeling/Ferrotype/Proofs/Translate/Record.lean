/-
# The fields of a record

A field of a struct or of a variant that is serialized is seen once: as a property, or as a type
that is merged into the object if it is flattened. Both stand in the order of the fields, and a
skipped field is seen nowhere, flattened or not (`Divided`).

`record_fields` finds the lines and the merged types of all fields in the text of a declaration: in
an interface, which becomes an intersection if a type is merged, and in the members of a union,
whatever its tagging.
-/

import Ferrotype.Proofs.Translate.Enum
import Ferrotype.Proofs.Translate.Skipped

namespace Ferrotype
namespace Translate

open Rust (Field Item Variant)
open Serde (Casing DeclarationFacts)
open TypeScript (exportWord indent indentation propertyKey renderComment renderGenerics)

/-! ## Fields -/

/-- What a flattened field merges: its type, of which an optional field has only a part. -/
def mergedText : Rust.TypeExpr → String
  | .option inner => "Partial<" ++ (slot inner).type.render ++ ">"
  | t => (type t).render

/-- What any other field adds to an object: its documentation, and a line with its name and type. -/
def lineText (policy : Option Casing) (level : Nat) (f : Field) : String :=
  renderComment (indentation level) f.preamble.docs ++ indent level ++
    propertyKey (Serde.memberName policy (factsOf f).rename (f.name.getD "")) ++
    (if f.type.isOption || (factsOf f).optional then "?" else "") ++ ": " ++
    (slot f.type).type.render ++ ";\n"

/-- How fields fall into the lines of an object and the types that are merged into it. -/
inductive Divided (policy : Option Casing) (level : Nat) :
    List Field → List String → List String → Prop
  | nil : Divided policy level [] [] []
  /-- A skipped field is neither, even if it is flattened. -/
  | skipped {f : Field} {fields : List Field} {lines merged : List String} :
    (factsOf f).skip = true → Divided policy level fields lines merged →
      Divided policy level (f :: fields) lines merged
  | merged {f : Field} {fields : List Field} {lines merged : List String} :
    (factsOf f).skip = false → (factsOf f).flatten = true →
      Divided policy level fields lines merged →
      Divided policy level (f :: fields) lines (mergedText f.type :: merged)
  | line {f : Field} {fields : List Field} {lines merged : List String} :
    (factsOf f).skip = false → (factsOf f).flatten = false →
      Divided policy level fields lines merged →
      Divided policy level (f :: fields) (lineText policy level f :: lines) merged

namespace Divided

variable {policy : Option Casing} {level : Nat} {fields : List Field} {lines merged : List String}

/-- Every field that is not skipped is seen once. -/
theorem length_add (h : Divided policy level fields lines merged) :
    lines.length + merged.length = (fields.filter fun f => !(factsOf f).skip).length := by
  induction h with
  | nil => rfl
  | skipped hskip _ ih => simp [hskip, ih]
  | merged hskip _ _ ih =>
    simp only [hskip, List.filter_cons, Bool.not_false, if_true, List.length_cons]
    omega
  | line hskip _ _ ih =>
    simp only [hskip, List.filter_cons, Bool.not_false, if_true, List.length_cons]
    omega

/-- There are no lines exactly if every field is skipped or flattened. -/
theorem lines_eq_nil_iff (h : Divided policy level fields lines merged) :
    lines = [] ↔ ∀ f ∈ fields, (factsOf f).skip ∨ (factsOf f).flatten := by
  induction h with
  | nil => simp
  | skipped hskip _ ih => simp [hskip, ih]
  | merged _ hflatten _ ih => simp [hflatten, ih]
  | line hskip hflatten _ _ => simp [hskip, hflatten]

/-- Nothing is merged exactly if every flattened field is skipped. -/
theorem merged_eq_nil_iff (h : Divided policy level fields lines merged) :
    merged = [] ↔ ∀ f ∈ fields, (factsOf f).flatten → (factsOf f).skip := by
  induction h with
  | nil => simp
  | skipped hskip _ ih => simp [hskip, ih]
  | merged hskip hflatten _ _ => simp [hskip, hflatten]
  | line _ hflatten _ ih => simp [hflatten, ih]

/-- Fields are divided in one way only. -/
theorem unique {lines' merged' : List String} (h : Divided policy level fields lines merged)
    (h' : Divided policy level fields lines' merged') : lines = lines' ∧ merged = merged' := by
  induction h generalizing lines' merged' with
  | nil =>
    cases h'
    exact ⟨rfl, rfl⟩
  | skipped hskip _ ih =>
    cases h' with
    | skipped _ h' => exact ih h'
    | merged hkept => exact absurd (hskip.symm.trans hkept) Bool.noConfusion
    | line hkept => exact absurd (hskip.symm.trans hkept) Bool.noConfusion
  | merged hkept hflatten _ ih =>
    cases h' with
    | skipped hskip => exact absurd (hskip.symm.trans hkept) Bool.noConfusion
    | merged _ _ h' => exact ⟨(ih h').1, congrArg (_ :: ·) (ih h').2⟩
    | line _ hplain => exact absurd (hflatten.symm.trans hplain) Bool.noConfusion
  | line hkept hplain _ ih =>
    cases h' with
    | skipped hskip => exact absurd (hskip.symm.trans hkept) Bool.noConfusion
    | merged _ hflatten => exact absurd (hflatten.symm.trans hplain) Bool.noConfusion
    | line _ _ h' => exact ⟨congrArg (_ :: ·) (ih h').1, (ih h').2⟩

end Divided

/-- The text of a merged field. -/
theorem render_mergedType (f : Field) : (mergedType f).render = mergedText f.type := by
  rw [mergedType, optional_slot, mergedText.eq_def]
  cases htype : f.type with
  | option inner =>
    have hslot : (slot (.option inner)).type = (slot inner).type := by rw [slot]
    rw [hslot]
    rfl
  | _ => simp [Rust.TypeExpr.isOption, type, Slot.standalone, optional_slot]

/-- The text of a property. -/
theorem render_property (policy : Option Casing) (level : Nat) (f : Field) :
    (property policy f).render level = lineText policy level f := by
  rw [lineText, ← optional_slot]
  rfl

/-- A record is divided as its fields are. -/
theorem divided_record (policy : Option Casing) (level : Nat) (fields : List Field) :
    Divided policy level fields ((record policy fields).properties.map (·.render level))
      ((record policy fields).merged.map (·.render)) := by
  induction fields with
  | nil => exact .nil
  | cons f fields ih =>
    cases hskip : (factsOf f).skip with
    | true =>
      have hrecord : record policy (f :: fields) = record policy fields :=
        record_skip hskip policy [] fields
      rw [hrecord]
      exact .skipped hskip ih
    | false =>
      cases hflatten : (factsOf f).flatten with
      | true =>
        have hrecord : record policy (f :: fields) =
            ⟨(record policy fields).properties, mergedType f :: (record policy fields).merged⟩ := by
          simp [record, isPlain, isMerged, hskip, hflatten]
        rw [hrecord, List.map_cons, render_mergedType]
        exact .merged hskip hflatten ih
      | false =>
        have hrecord : record policy (f :: fields) =
            ⟨property policy f :: (record policy fields).properties,
              (record policy fields).merged⟩ := by
          simp [record, isPlain, isMerged, hskip, hflatten]
        rw [hrecord, List.map_cons, render_property]
        exact .line hskip hflatten ih

/-! ## Objects -/

/-- An object with its lines, those of the fields behind those that lead it; without any line it is
written as a pair of braces. -/
def objectText (level : Nat) (leading lines : List String) : String :=
  if leading = [] ∧ lines = [] then "\x7b\x7d"
  else "\x7b\n" ++ Text.concat leading ++ Text.concat lines ++ indent level ++ "\x7d"

/-- An object is empty exactly if it has no lines. -/
theorem objectText_eq_braces_iff (level : Nat) (leading lines : List String) :
    objectText level leading lines = "\x7b\x7d" ↔ leading = [] ∧ lines = [] := by
  rw [objectText]
  split
  · exact iff_of_true rfl ‹_›
  · refine iff_of_false (fun h => ?_) ‹_›
    -- The second character of the object is a line feed.
    have hsecond := congrArg (fun text => text.toList[1]?) h
    simp at hsecond

/-- The text of an object by its lines. -/
theorem renderObject_eq_objectText (level : Nat) (tag : Option TypeScript.Tag)
    (properties : List TypeScript.Property) :
    TypeScript.renderObject level tag properties =
      objectText level (tag.map (·.line (level + 1))).toList
        (properties.map (·.render (level + 1))) := by
  rw [TypeScript.renderObject, objectText]
  cases tag with
  | none => cases properties <;> rfl
  | some t => simp [TypeScript.tagLine]

/-- An object with the types that are merged into it behind it. -/
def bodyText (level : Nat) (leading lines merged : List String) : String :=
  objectText level leading lines ++ Text.concat (merged.map (" & " ++ ·))

/-- The text of a record by its lines and by what is merged into it. -/
theorem render_record (level : Nat) (tag : Option TypeScript.Tag) (r : TypeScript.Record) :
    r.render level tag = bodyText level (tag.map (·.line (level + 1))).toList
      (r.properties.map (·.render (level + 1))) (r.merged.map (·.render)) := by
  rw [TypeScript.Record.render, renderObject_eq_objectText, bodyText, List.map_map]
  rfl

/-! ## Declarations -/

/-- The start of the declaration of a struct: an intersection starts with the types that are
merged. -/
def recordHead (ambient : Bool) (name : String) (generics merged : List String) : String :=
  if merged = [] then exportWord ambient ++ "interface " ++ name ++ renderGenerics generics ++ " "
  else
    exportWord ambient ++ "type " ++ name ++ renderGenerics generics ++ " = " ++
      Text.concat (merged.map (· ++ " & "))

/-- The text of a record as a declaration of its own: an interface, or a type if something is merged
into it. -/
theorem render_recordDeclaration (ambient : Bool) (name : String) (generics : List String)
    (r : TypeScript.Record) :
    (TypeScript.Declaration.record name generics r).render ambient =
      recordHead ambient name generics (r.merged.map (·.render)) ++
        objectText 0 [] (r.properties.map (·.render 1)) ++ "\n" := by
  have hrender : (TypeScript.Declaration.record name generics r).render ambient =
      (if r.merged.isEmpty then
        exportWord ambient ++ "interface " ++ name ++ renderGenerics generics ++ " "
      else
        TypeScript.Declaration.aliasHead ambient name generics ++ " = " ++
          Text.concat (r.merged.map fun type => type.render ++ " & ")) ++
        TypeScript.renderObject 0 none r.properties ++ "\n" := rfl
  rw [hrender, renderObject_eq_objectText, recordHead, List.map_map,
    TypeScript.Declaration.aliasHead]
  simp only [List.isEmpty_iff, List.map_eq_nil_iff, Option.map_none, Option.toList_none,
    Function.comp_def]

/-- Where the object of a variant with named fields stands: what is before it, the level of its
closing brace, the lines that lead it, and what is behind it. -/
structure Place where
  before : String
  level : Nat
  leading : List String
  after : String

/-- The line of the tag of a variant. -/
def variantTagLine (facts : DeclarationFacts) (tag : String) (v : Variant) : String :=
  indent 3 ++ propertyKey tag ++ ": " ++ Text.literal (label facts.casing v) ++ ";\n"

/-- The place under a key, with lines in front of that key. -/
def keyedPlace (leading key : String) : Place where
  before := "\x7b\n" ++ leading ++ indent 3 ++ propertyKey key ++ ": "
  level := 3
  leading := []
  after := ";\n" ++ indent 2 ++ "\x7d"

/-- The place of a variant for each tagging: its tag leads the object, or stands in front of the
content key; without a tag the object has its name as a key, and in an untagged enum it is alone. -/
def place (facts : DeclarationFacts) (v : Variant) : Place :=
  if facts.untagged then ⟨"", 2, [], ""⟩
  else match facts.tag, facts.content with
    | some tag, some content => keyedPlace (variantTagLine facts tag v) content
    | some tag, none => ⟨"", 2, [variantTagLine facts tag v], ""⟩
    | none, _ => keyedPlace "" (label facts.casing v)

/-- The text of a variant with named fields, as a member of the union. -/
def Place.fill (p : Place) (lines merged : List String) : String :=
  p.before ++ bodyText p.level p.leading lines merged ++ p.after

/-- The text of a record behind the key of its variant. -/
theorem render_keyed (tag : Option TypeScript.Tag) (key : String) (r : TypeScript.Record) :
    (TypeScript.Shape.keyed tag key r).render =
      (keyedPlace (TypeScript.tagLine 3 tag) key).fill (r.properties.map (·.render 4))
        (r.merged.map (·.render)) := by
  rw [TypeScript.Shape.render, render_record, Place.fill]
  simp only [keyedPlace, TypeScript.Shape.memberLevel, Option.map_none, Option.toList_none,
    String.append_assoc]

/-- **The member of a variant with named fields** is its object in the place for its tagging. -/
theorem render_shape_of_named (facts : DeclarationFacts) {v : Variant} (h : v.shape = .named) :
    (shape facts v).render =
      (place facts v).fill
        ((variantRecord v).properties.map (·.render ((place facts v).level + 1)))
        ((variantRecord v).merged.map (·.render)) := by
  have halone (tag : Option TypeScript.Tag) :
      (TypeScript.Shape.record tag (variantRecord v)).render =
      (Place.mk "" 2 (tag.map (·.line 3)).toList "").fill
        ((variantRecord v).properties.map (·.render 3))
        ((variantRecord v).merged.map (·.render)) := by
    rw [TypeScript.Shape.render, render_record, Place.fill]
    simp only [TypeScript.Shape.memberLevel, String.empty_append, String.append_empty]
  have hline (tag : String) : (TypeScript.Tag.mk tag (label facts.casing v)).line 3 =
      variantTagLine facts tag v := by
    simp only [TypeScript.Tag.line, TypeScript.Tag.render, variantTagLine, String.append_assoc]
  rw [shape, place]
  cases facts.untagged with
  | true => rw [if_pos rfl, if_pos rfl, untagged, h, halone]; rfl
  | false =>
    rw [if_neg Bool.false_ne_true, if_neg Bool.false_ne_true]
    cases facts.tag with
    | none => simp only [external, h, render_keyed]; rfl
    | some tag =>
      cases facts.content with
      | none => simp only [internal, h, halone, Option.map_some, Option.toList_some, hline]
      | some content =>
        simp only [adjacent, h, render_keyed, TypeScript.tagLine, Option.map_some,
          Option.getD_some, hline]
        rfl

/-- An enum with a record among its serialized variants is a union. -/
theorem enum_of_named {v : Variant} {variants : List Variant} (hv : v ∈ variants)
    (hserialized : isSerialized v) (hnamed : v.shape = .named) (settings : Settings)
    (facts : DeclarationFacts) (name : String) (generics : List String) :
    enum settings facts name generics variants =
      .union name generics ((variants.filter isSerialized).map (member facts)) := by
  have hnone : isEnumeration settings facts (variants.filter isSerialized) = false := by
    have hall : (variants.filter isSerialized).all (·.shape == .unit) = false := by
      refine List.all_eq_false.2 ⟨v, List.mem_filter.2 ⟨hv, hserialized⟩, ?_⟩
      rw [hnamed]
      decide
    rw [isEnumeration, hall, Bool.and_false]
  simp only [enum, hnone, Bool.false_eq_true, if_false]

/-- The members of a union, each with its comment on lines of its own. -/
theorem unionText_members (facts : DeclarationFacts) {variants : List Variant}
    (h : variants ≠ []) :
    TypeScript.unionText (variants.map (member facts)) =
      Text.concat (variants.map fun v =>
        "\n" ++ renderComment 2 v.preamble.docs ++ "  | " ++ (shape facts v).render) := by
  have hempty : ¬ (variants.map (member facts)).isEmpty := by simpa using h
  rw [TypeScript.unionText, if_neg hempty, List.map_map]
  refine congrArg Text.concat (List.map_congr_left fun v _ => ?_)
  have hbar : indent 1 ++ "| " = "  | " := by decide
  simp only [Function.comp_apply, TypeScript.Member.render, member, String.append_assoc, ← hbar]
  rfl

/-! ## Items -/

section Items

variable (settings : Settings) {item : Item} (h : (factsOfItem settings item).exported)
include h

/-- The text of a struct with named fields. -/
theorem text_ofItem_record {fields : List Field} (hbody : item.body = .struct .named fields) :
    (ofItem settings item).text =
      "\n" ++ renderComment 0 item.preamble.docs ++
        (TypeScript.Declaration.record item.name item.generics
          (record (factsOfItem settings item).casing fields)).render settings.ambient := by
  rw [ofItem, if_pos h, exported, hbody]
  rfl

/-- The text of an enum with a variant that has named fields. -/
theorem text_ofItem_union {v : Variant} {variants : List Variant}
    (hbody : item.body = .enum variants) (hv : v ∈ variants) (hserialized : isSerialized v)
    (hnamed : v.shape = .named) :
    (ofItem settings item).text =
      "\n" ++ renderComment 0 item.preamble.docs ++
        (TypeScript.Declaration.aliasHead settings.ambient item.name item.generics ++ " =" ++
          Text.concat ((variants.filter isSerialized).map fun w =>
            "\n" ++ renderComment 2 w.preamble.docs ++ "  | " ++
              (shape (factsOfItem settings item) w).render) ++ ";\n") := by
  have htext : (ofItem settings item).text =
      "" ++ ("\n" ++ renderComment 0 item.preamble.docs ++
        (enum settings (factsOfItem settings item) item.name item.generics variants).render
          settings.ambient) := by
    rw [ofItem, if_pos h, exported, hbody]
    rfl
  have hsome : variants.filter isSerialized ≠ [] :=
    List.ne_nil_of_mem (List.mem_filter.2 ⟨hv, hserialized⟩)
  rw [htext, String.empty_append, enum_of_named hv hserialized hnamed, TypeScript.render_union,
    unionText_members _ hsome]

/-- **Every field that is not skipped is seen once, in order**: as a line of the object, or as a
type that is merged into it if it is flattened. A skipped field is neither. The object is a pair of
braces if and only if nothing leads it and no field is a line. A struct is its object behind the
types that are merged, and an interface if and only if there are none; a variant with named fields
is its object and the types that are merged, in the place for the tagging of its enum. -/
theorem record_fields :
    (∀ policy level fields, ∃ lines merged, Divided policy level fields lines merged) ∧
    (∀ policy level fields lines merged, Divided policy level fields lines merged →
      lines.length + merged.length = (fields.filter fun f => !(factsOf f).skip).length ∧
      (lines = [] ↔ ∀ f ∈ fields, (factsOf f).skip ∨ (factsOf f).flatten) ∧
      (merged = [] ↔ ∀ f ∈ fields, (factsOf f).flatten → (factsOf f).skip)) ∧
    (∀ level leading lines, objectText level leading lines = "\x7b\x7d" ↔
      leading = [] ∧ lines = []) ∧
    (∀ fields lines merged, item.body = .struct .named fields →
      Divided (factsOfItem settings item).casing 1 fields lines merged →
        (ofItem settings item).text =
          "\n" ++ renderComment 0 item.preamble.docs ++
            (recordHead settings.ambient item.name item.generics merged ++
              objectText 0 [] lines ++ "\n")) ∧
    ∀ variants v, item.body = .enum variants → v ∈ variants → isSerialized v → v.shape = .named →
      (ofItem settings item).text =
        "\n" ++ renderComment 0 item.preamble.docs ++
          (TypeScript.Declaration.aliasHead settings.ambient item.name item.generics ++ " =" ++
            Text.concat ((variants.filter isSerialized).map fun w =>
              "\n" ++ renderComment 2 w.preamble.docs ++ "  | " ++
                (shape (factsOfItem settings item) w).render) ++ ";\n") ∧
      ∀ lines merged,
        Divided (variantFactsOf v).casing ((place (factsOfItem settings item) v).level + 1)
          v.fields lines merged →
          (shape (factsOfItem settings item) v).render =
            (place (factsOfItem settings item) v).fill lines merged := by
  refine ⟨fun policy level fields => ⟨_, _, divided_record policy level fields⟩,
    fun policy level fields lines merged hdivided =>
      ⟨hdivided.length_add, hdivided.lines_eq_nil_iff, hdivided.merged_eq_nil_iff⟩,
    objectText_eq_braces_iff, ?_, ?_⟩
  · intro fields lines merged hbody hdivided
    obtain ⟨rfl, rfl⟩ := hdivided.unique (divided_record _ _ _)
    rw [text_ofItem_record settings h hbody, render_recordDeclaration]
  · intro variants v hbody hv hserialized hnamed
    refine ⟨text_ofItem_union settings h hbody hv hserialized hnamed, ?_⟩
    intro lines merged hdivided
    obtain ⟨rfl, rfl⟩ := hdivided.unique (divided_record _ _ _)
    exact render_shape_of_named _ hnamed

end Items

/-- Of a field, an optional flattened field and a skipped flattened field the first is a line and
the second is merged in part. -/
theorem record_fields_flattened :
    let field (name : String) (t : Rust.TypeExpr) (words : List String) : Field :=
      ⟨some name, t, ⟨[], words.map fun word => ⟨"serde", [⟨word, none⟩]⟩⟩⟩
    let fields := [field "rest" (.option (.path "Rest" [])) ["flatten"],
      field "size" (.primitive "u8") [], field "gone" (.path "Gone" []) ["flatten", "skip"]]
    let item : Item := ⟨"S", [], ⟨[], [⟨"tsync", []⟩]⟩, .struct .named fields⟩
    (factsOfItem default item).exported ∧
      Divided (factsOfItem default item).casing 1 fields ["  size: number;\n"] ["Partial<Rest>"] ∧
      (ofItem default item).text =
        "\nexport type S = Partial<Rest> & \x7b\n  size: number;\n\x7d\n" := by
  intro field fields item
  have hexported : (factsOfItem default item).exported := by decide
  have hmerged : mergedText (.option (.path "Rest" [])) = "Partial<Rest>" := by decide
  have hline : lineText (factsOfItem default item).casing 1 (field "size" (.primitive "u8") []) =
      "  size: number;\n" := by decide
  have hdivided : Divided (factsOfItem default item).casing 1 fields ["  size: number;\n"]
      ["Partial<Rest>"] := by
    rw [← hline, ← hmerged]
    exact .merged (by decide) (by decide) (.line (by decide) (by decide)
      (.skipped (by decide) .nil))
  refine ⟨hexported, hdivided, ?_⟩
  have htext := (record_fields default hexported).2.2.2.1 _ _ _ rfl hdivided
  rw [htext]
  decide

end Translate
end Ferrotype

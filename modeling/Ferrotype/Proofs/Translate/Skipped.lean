/-
# Fields that are not serialized

A field that is skipped is to leave no trace: another name, another type, other documentation and
other attributes of it must not be seen in the generated file (noninterference). Records, tuple
structs and the variants with named fields keep to this. A tuple variant does not: it lists the
types of all its fields, whatever their attributes say.

`translate_exchange` is the exact condition. Behind it stands one fact (`encloses_text_ofItem`): the
text for a tuple variant is the text of the type, with the same text before it and behind it for
every field.
-/

import Ferrotype.Proofs.Translate.Block

namespace Ferrotype

/-! ## What stands around a part -/

section Encloses

variable {α β : Type} {inner middle outer : α → List β}

/-- One list is always part of another one, and what stands before and behind it is always the
same. -/
def Encloses (outer inner : α → List β) : Prop :=
  ∃ before after, ∀ a, outer a = before ++ inner a ++ after

namespace Encloses

theorem refl (inner : α → List β) : Encloses inner inner := ⟨[], [], fun a => by simp⟩

/-- What encloses something that encloses another thing encloses that. -/
theorem trans (h : Encloses outer middle) (h' : Encloses middle inner) : Encloses outer inner := by
  obtain ⟨before, after, h⟩ := h
  obtain ⟨before', after', h'⟩ := h'
  exact ⟨before ++ before', after' ++ after, fun a => by simp [h, h']⟩

/-- What encloses a part differs exactly where the part does. -/
theorem eq_iff (h : Encloses outer inner) (a b : α) : outer a = outer b ↔ inner a = inner b := by
  obtain ⟨before, after, h⟩ := h
  rw [h, h, List.append_left_inj, List.append_right_inj]

/-- The part of one element is enclosed by those of all. -/
theorem flatMap {γ : Type} (xs ys : List γ) (x : α → γ) (f : γ → List β) :
    Encloses (fun a => (xs ++ x a :: ys).flatMap f) fun a => f (x a) :=
  ⟨xs.flatMap f, ys.flatMap f, fun a => by simp⟩

/-- A change of every element keeps what is enclosed. -/
theorem map {γ : Type} (h : Encloses outer inner) (f : β → γ) :
    Encloses (fun a => (outer a).map f) fun a => (inner a).map f := by
  obtain ⟨before, after, h⟩ := h
  exact ⟨before.map f, after.map f, fun a => by simp [h]⟩

end Encloses
end Encloses

namespace Text

variable {α : Type}

/-- One of several texts written one after the other. -/
theorem encloses_concat (xs ys : List String) (x : α → String) :
    Encloses (fun a => (concat (xs ++ x a :: ys)).toList) fun a => (x a).toList :=
  ⟨(concat xs).toList, (concat ys).toList, fun a => by simp [concat_append]⟩

/-- One of several texts with separators between them. -/
theorem encloses_join (sep : String) (xs ys : List String) (x : α → String) :
    Encloses (fun a => (join sep (xs ++ x a :: ys)).toList) fun a => (x a).toList := by
  induction xs with
  | nil =>
    cases ys with
    | nil => exact .refl _
    | cons y ys => exact ⟨[], (sep ++ join sep (y :: ys)).toList, fun a => by simp [join]⟩
  | cons first xs ih =>
    refine .trans ⟨(first ++ sep).toList, [], fun a => ?_⟩ ih
    -- What follows the first text is no empty list.
    obtain ⟨next, rest, h⟩ := List.exists_cons_of_ne_nil (l := xs ++ x a :: ys) (by simp)
    simp [h, join_cons_cons]

end Text

namespace TypeScript

variable {α : Type}

/-- The text of an element is enclosed by that of the tuple. -/
theorem encloses_render_tuple (xs ys : List TypeExpr) (x : α → TypeExpr) :
    Encloses (fun a => (TypeExpr.tuple (xs ++ x a :: ys)).render.toList) fun a =>
      (x a).render.toList := by
  refine .trans ⟨['['], [']'], fun a => ?_⟩
    (Text.encloses_join ", " (xs.map TypeExpr.render) (ys.map TypeExpr.render)
      fun a => (x a).render)
  simp [TypeExpr.render, bracketed]

/-- The foreign types of an element are enclosed by those of the tuple. -/
theorem encloses_foreigns_tuple (xs ys : List TypeExpr) (x : α → TypeExpr) :
    Encloses (fun a => (TypeExpr.tuple (xs ++ x a :: ys)).foreigns) fun a => (x a).foreigns := by
  simp only [TypeExpr.foreigns, TypeExpr.foreignsAll_eq_flatMap]
  exact .flatMap xs ys x TypeExpr.foreigns

/-- A payload behind its tag. -/
theorem encloses_render_tagAnd (tag : Tag) (payload : α → TypeExpr) :
    Encloses (fun a => (Shape.tagAnd tag (payload a)).render.toList) fun a =>
      (payload a).render.toList :=
  ⟨("\x7b " ++ tag.render ++ " \x7d & ").toList, [], fun a => by simp [Shape.render]⟩

/-- A payload under a key of its own. -/
theorem encloses_render_tagWith (tag : Tag) (content : String) (payload : α → TypeExpr) :
    Encloses (fun a => (Shape.tagWith tag content (payload a)).render.toList) fun a =>
      (payload a).render.toList :=
  ⟨("\x7b " ++ tag.render ++ "; " ++ propertyKey content ++ ": ").toList, " \x7d".toList,
    fun a => by simp [Shape.render]⟩

/-- One of the members of a union. -/
theorem encloses_renderMembers (xs ys : List Member) (x : α → Member) :
    Encloses (fun a => (renderMembers (xs ++ x a :: ys)).toList) fun a => (x a).render.toList := by
  induction xs with
  | nil =>
    cases ys with
    | nil => exact ⟨[], ";\n".toList, fun a => by simp [renderMembers]⟩
    | cons y ys =>
      exact ⟨[], ("\n" ++ renderMembers (y :: ys)).toList, fun a => by simp [renderMembers]⟩
  | cons first xs ih =>
    refine .trans ⟨(first.render ++ "\n").toList, [], fun a => ?_⟩ ih
    obtain ⟨next, rest, h⟩ := List.exists_cons_of_ne_nil (l := xs ++ x a :: ys) (by simp)
    simp [h, renderMembers]

/-- One of the members of a union that is declared. -/
theorem encloses_render_union (ambient : Bool) (docs : List String) (name : String)
    (generics : List String) (xs ys : List Member) (x : α → Member) :
    Encloses
      (fun a => ((Block.mk docs (.union name generics (xs ++ x a :: ys))).render ambient).toList)
      fun a => (x a).render.toList := by
  have hrender (ms : List Member) : (Block.mk docs (.union name generics ms)).render ambient =
      "\n" ++ renderComment 0 docs ++ (Declaration.aliasHead ambient name generics ++ " =" ++
        if ms.isEmpty then " never;\n" else "\n" ++ renderMembers ms) := rfl
  refine .trans ⟨("\n" ++ renderComment 0 docs ++ (Declaration.aliasHead ambient name generics ++
    " =" ++ "\n")).toList, [], fun a => ?_⟩ (encloses_renderMembers xs ys x)
  simp [hrender]

end TypeScript

namespace Translate

open Rust (Body Field Item StructShape Variant)

/-! ## Records and tuple structs -/

variable {f f' : Field}

theorem isPlain_of_skip (h : (factsOf f).skip) : isPlain f = false := by simp [isPlain, h]

theorem isMerged_of_skip (h : (factsOf f).skip) : isMerged f = false := by simp [isMerged, h]

/-- A record is the same without its skipped fields. -/
theorem record_skip (h : (factsOf f).skip) (policy : Option Serde.Casing)
    (before after : List Field) :
    record policy (before ++ f :: after) = record policy (before ++ after) := by
  simp [record, isPlain_of_skip h, isMerged_of_skip h]

/-- So is the type that stands for a tuple struct. -/
theorem tupleTarget_skip (h : (factsOf f).skip) (before after : List Field) :
    tupleTarget (before ++ f :: after) = tupleTarget (before ++ after) := by
  simp [tupleTarget, h]

/-- And so is the declaration of a struct, whatever its form. -/
theorem struct_skip (h : (factsOf f).skip) (facts : Serde.DeclarationFacts) (name : String)
    (generics : List String) (shape : StructShape) (before after : List Field) :
    struct facts name generics shape (before ++ f :: after) =
      struct facts name generics shape (before ++ after) := by
  cases shape with
  | named => simp only [struct, record_skip h]
  | tuple => simp only [struct, tupleTarget_skip h]
  | unit => simp only [struct, tupleTarget_skip h]

/-! ## Variants -/

section Variants

variable (v : Variant) (before after : List Field)

/-- A variant with a field in one of its places; the fields that it has do not count. -/
def withField (g : Field) : Variant := { v with fields := before ++ g :: after }

/-- A variant that is no tuple is the same without its skipped fields. -/
theorem shape_skip (h : (factsOf f).skip) (htuple : v.shape ≠ .tuple)
    (facts : Serde.DeclarationFacts) :
    shape facts (withField v before after f) =
      shape facts { v with fields := before ++ after } := by
  have hrecord : variantRecord (withField v before after f) =
      variantRecord { v with fields := before ++ after } := record_skip h _ before after
  have hlabel : label facts.casing (withField v before after f) =
      label facts.casing { v with fields := before ++ after } := rfl
  obtain ⟨name, vshape, fields, discriminant, preamble⟩ := v
  cases vshape with
  | tuple => exact absurd rfl htuple
  | _ =>
    simp only [shape, untagged, adjacent, internal, external, hrecord, hlabel]
    rfl

/-- The payload of a tuple variant is the type of its only field or a tuple: either way there is a
place in it for the type of each field. -/
theorem encloses_payload :
    Encloses (fun g => (payload (withField v before after g)).render.toList)
        (fun g => (type g.type).render.toList) ∧
      Encloses (fun g => (payload (withField v before after g)).foreigns)
        fun g => (type g.type).foreigns := by
  by_cases hsingle : before = [] ∧ after = []
  · obtain ⟨rfl, rfl⟩ := hsingle
    exact ⟨.refl _, .refl _⟩
  · have htuple (g : Field) : payload (withField v before after g) =
        .tuple (fieldTypes before ++ type g.type :: fieldTypes after) := by
      have htypes : fieldTypes (withField v before after g).fields =
          fieldTypes before ++ type g.type :: fieldTypes after := by simp [fieldTypes, withField]
      unfold payload
      rw [htypes]
      split
      · rename_i t hone
        simp [fieldTypes, List.append_eq_singleton_iff] at hone
        exact absurd ⟨hone.1, hone.2.2⟩ hsingle
      · rfl
    simp only [htuple]
    exact ⟨TypeScript.encloses_render_tuple _ _ _, TypeScript.encloses_foreigns_tuple _ _ _⟩

/-- **A tuple variant encloses the type of each of its fields**, under every tagging. -/
theorem encloses_shape (htuple : v.shape = .tuple) (facts : Serde.DeclarationFacts) :
    Encloses (fun g => (shape facts (withField v before after g)).render.toList)
        (fun g => (type g.type).render.toList) ∧
      Encloses (fun g => (shape facts (withField v before after g)).foreigns)
        fun g => (type g.type).foreigns := by
  obtain ⟨htext, hforeigns⟩ := encloses_payload v before after
  have hshape (g : Field) : (withField v before after g).shape = .tuple := htuple
  cases huntagged : facts.untagged with
  | true =>
    simp only [shape, huntagged, if_true, untagged, hshape]
    exact ⟨htext, hforeigns⟩
  | false =>
    cases htag : facts.tag with
    | none =>
      simp only [shape, huntagged, htag, Bool.false_eq_true, if_false, external, hshape]
      simp only [withField, fieldTypes, List.map_append, List.map_cons]
      exact ⟨TypeScript.encloses_render_tuple _ _ _, TypeScript.encloses_foreigns_tuple _ _ _⟩
    | some tag =>
      cases hcontent : facts.content with
      | none =>
        simp only [shape, huntagged, htag, hcontent, Bool.false_eq_true, if_false, internal, hshape]
        exact ⟨.trans (TypeScript.encloses_render_tagAnd ⟨tag, label facts.casing v⟩ _) htext,
          hforeigns⟩
      | some content =>
        simp only [shape, huntagged, htag, hcontent, Bool.false_eq_true, if_false, adjacent, hshape]
        exact ⟨.trans (TypeScript.encloses_render_tagWith ⟨tag, label facts.casing v⟩ content _)
          htext, hforeigns⟩

end Variants

/-! ## Items -/

/-- A place for a field in what an item declares. -/
inductive FieldPlace
  | struct (shape : StructShape) (before after : List Field)
  /-- A place in a variant; the fields that the variant has do not count. -/
  | variant (earlier : List Variant) (v : Variant) (before after : List Field)
    (later : List Variant)

namespace FieldPlace

/-- What is declared with a field in a place. -/
def fill : FieldPlace → Field → Body
  | struct shape before after, f => .struct shape (before ++ f :: after)
  | variant earlier v before after later, f =>
    .enum (earlier ++ withField v before after f :: later)

/-- Whether a place is in a tuple variant that is serialized. -/
def isListed : FieldPlace → Bool
  | struct .. => false
  | variant _ v _ _ _ => isSerialized v && v.shape == .tuple

end FieldPlace

section Items

variable (settings : Settings) (item : Item) (place : FieldPlace)

/-- The item with a field in a place of it. -/
def withBody (g : Field) : Item := { item with body := place.fill g }

/-- The variants of an enum that are serialized, one of which has a field in a place. -/
theorem filter_isSerialized_withField (earlier later : List Variant) (v : Variant)
    (before after : List Field) (g : Field) :
    (earlier ++ withField v before after g :: later).filter isSerialized =
      if isSerialized v then
        earlier.filter isSerialized ++ withField v before after g :: later.filter isSerialized
      else earlier.filter isSerialized ++ later.filter isSerialized := by
  have hserialized : isSerialized (withField v before after g) = isSerialized v := rfl
  cases h : isSerialized v <;> simp [hserialized, h]

/-- The notes on the variants of an enum that are not serialized do not depend on fields. -/
theorem skippedVariants_withField (name : String) (earlier later : List Variant) (v : Variant)
    (before after : List Field) (g : Field) :
    skippedVariants name (earlier ++ withField v before after g :: later) =
      skippedVariants name (earlier ++ v :: later) := by
  have hserialized : isSerialized (withField v before after g) = isSerialized v := rfl
  have hname : (withField v before after g).name = v.name := rfl
  cases h : isSerialized v <;> simp [skippedVariants, hserialized, h, hname]

/-- Whether an enum becomes an enumeration does not depend on the fields of its variants. -/
theorem isEnumeration_withField (facts : Serde.DeclarationFacts) (earlier later : List Variant)
    (v : Variant) (before after : List Field) (g : Field) :
    isEnumeration settings facts (earlier ++ withField v before after g :: later) =
      isEnumeration settings facts (earlier ++ v :: later) := by
  have hshape : (withField v before after g).shape = v.shape := rfl
  have hsome (v : Variant) : (earlier ++ v :: later).isEmpty = false := by simp
  simp [isEnumeration, hshape, hsome]

/-- The member of a union that is no tuple variant is the same whatever is skipped in it. -/
theorem member_exchange {v : Variant} (htuple : v.shape ≠ .tuple) (before after : List Field)
    (hf : (factsOf f).skip) (hf' : (factsOf f').skip) (facts : Serde.DeclarationFacts) :
    member facts (withField v before after f) = member facts (withField v before after f') := by
  simp only [member, shape_skip v before after hf htuple, shape_skip v before after hf' htuple]
  rfl

/-- The declaration of an enum shows a field of a variant in the member of that variant. -/
theorem enum_withField {v : Variant} (hserialized : isSerialized v) (facts : Serde.DeclarationFacts)
    (name : String) (generics : List String) (earlier later : List Variant)
    (before after : List Field) (g : Field)
    (hunion : isEnumeration settings facts
      (earlier.filter isSerialized ++ v :: later.filter isSerialized) = false) :
    enum settings facts name generics (earlier ++ withField v before after g :: later) =
      .union name generics ((earlier.filter isSerialized).map (member facts) ++
        member facts (withField v before after g) ::
          (later.filter isSerialized).map (member facts)) := by
  simp only [enum, filter_isSerialized_withField, hserialized, if_true, isEnumeration_withField,
    hunion, Bool.false_eq_true, if_false, List.map_append, List.map_cons]

/-- **A skipped field that is not in a tuple variant leaves no trace.** -/
theorem exported_exchange (hf : (factsOf f).skip) (hf' : (factsOf f').skip)
    (h : place.isListed = false) (facts : Serde.DeclarationFacts) :
    exported settings facts (withBody item place f) =
      exported settings facts (withBody item place f') := by
  cases place with
  | struct shape before after =>
    simp only [exported, withBody, FieldPlace.fill, struct_skip hf, struct_skip hf']
  | variant earlier v before after later =>
    simp only [exported, withBody, FieldPlace.fill, skippedVariants_withField]
    congr 2
    cases hserialized : isSerialized v with
    | false =>
      simp only [enum, filter_isSerialized_withField, hserialized, Bool.false_eq_true, if_false]
    | true =>
      have htuple : v.shape ≠ .tuple := by simpa [FieldPlace.isListed, hserialized] using h
      cases hunion : isEnumeration settings facts
          (earlier.filter isSerialized ++ v :: later.filter isSerialized) with
      | false =>
        rw [enum_withField settings hserialized _ _ _ _ _ _ _ _ hunion,
          enum_withField settings hserialized _ _ _ _ _ _ _ _ hunion,
          member_exchange htuple before after hf hf']
      | true =>
        simp only [enum, filter_isSerialized_withField, hserialized, if_true,
          isEnumeration_withField, hunion, List.map_append, List.map_cons]
        rfl

/-- **What an exported enum leaves encloses the type of each field of its tuple variants**, in the
text and in the findings. -/
theorem encloses_exported (h : place.isListed = true) (facts : Serde.DeclarationFacts) :
    Encloses (fun g => (exported settings facts (withBody item place g)).text.toList)
        (fun g => (type g.type).render.toList) ∧
      Encloses (fun g => (exported settings facts (withBody item place g)).findings)
        fun g => unmapped item.name (type g.type).foreigns := by
  cases place with
  | struct shape before after => cases h
  | variant earlier v before after later =>
    obtain ⟨hserialized, htuple⟩ : isSerialized v ∧ v.shape = .tuple := by
      simpa [FieldPlace.isListed] using h
    have hunion : isEnumeration settings facts
        (earlier.filter isSerialized ++ v :: later.filter isSerialized) = false := by
      simp [isEnumeration, htuple]
    obtain ⟨htext, hforeigns⟩ := encloses_shape v before after htuple facts
    simp only [exported, withBody, FieldPlace.fill, skippedVariants_withField,
      enum_withField settings hserialized _ _ _ _ _ _ _ _ hunion, Emission.text_append,
      Emission.findings_append, ofBlock]
    constructor
    · have hmember : Encloses (fun g => (member facts (withField v before after g)).render.toList)
          fun g => (shape facts (withField v before after g)).render.toList :=
        ⟨(TypeScript.renderComment (TypeScript.indentation 1) v.preamble.docs ++
          TypeScript.indent 1 ++ "| ").toList, [], fun g => by
            simp [TypeScript.Member.render, member, withField]⟩
      simp only [Emission.empty, String.empty_append]
      exact .trans (TypeScript.encloses_render_union _ _ _ _ _ _ _) (.trans hmember htext)
    · refine .trans ⟨_, [], fun g => (List.append_nil _).symm⟩ (.map ?_ _)
      exact .trans (.flatMap _ _ _ _) hforeigns

/-! ## Whole files -/

/-- The names of types without counterpart stand in the findings about them. -/
theorem unmapped_inj {name : String} {foreigns foreigns' : List String} :
    unmapped name foreigns = unmapped name foreigns' ↔ foreigns = foreigns' :=
  List.map_inj_right fun _ _ h => (Finding.unmappedType.inj h).1

/-- Nothing with fields is left out. -/
theorem unprocessed_withBody (g : Field) :
    (ofItem settings (withBody item place g)).unprocessed = [] := by
  simp only [ofItem]
  split
  · cases place <;> rfl
  · rfl

/-- What an item with a field leaves in a file is the same for every skipped field there, or it
encloses the type of the field. -/
theorem ofItem_exchange (hf : (factsOf f).skip) (hf' : (factsOf f').skip) :
    let seen := (factsOfItem settings item).exported && place.isListed
    ((ofItem settings (withBody item place f)).text =
        (ofItem settings (withBody item place f')).text ↔
      (seen → (type f.type).render = (type f'.type).render)) ∧
    ((ofItem settings (withBody item place f)).findings =
        (ofItem settings (withBody item place f')).findings ↔
      (seen → (type f.type).foreigns = (type f'.type).foreigns)) := by
  have hfacts (g : Field) : factsOfItem settings (withBody item place g) =
      factsOfItem settings item := rfl
  simp only [ofItem, hfacts]
  cases hexported : (factsOfItem settings item).exported with
  | false => simp
  | true =>
    simp only [if_true, Bool.true_and]
    cases hlisted : place.isListed with
    | false => simp [exported_exchange settings item place hf hf' hlisted]
    | true =>
      obtain ⟨htext, hfindings⟩ :=
        encloses_exported settings item place hlisted (factsOfItem settings item)
      have htext := htext.eq_iff f f'
      have hfindings := hfindings.eq_iff f f'
      rw [String.toList_inj, String.toList_inj] at htext
      exact ⟨by simp [htext], by simp [hfindings, unmapped_inj]⟩

/-- **Which skipped fields can be seen in a generated file.** Where one stands for another, the
file is the same, unless the place is in a serialized tuple variant of an exported enum. There the
text is the same if and only if the types have the same text, and the findings are if and only if
the types have the same parts without counterpart. -/
theorem translate_exchange (hf : (factsOf f).skip) (hf' : (factsOf f').skip)
    (xs ys : List Item) :
    let file (g : Field) := translate settings (xs ++ withBody item place g :: ys)
    let seen := (factsOfItem settings item).exported && place.isListed
    ((file f).text = (file f').text ↔
      (seen → (type f.type).render = (type f'.type).render)) ∧
    ((file f).findings = (file f').findings ↔
      (seen → (type f.type).foreigns = (type f'.type).foreigns)) ∧
    (file f).unprocessed = (file f').unprocessed := by
  intro file seen
  obtain ⟨htext, hfindings⟩ := ofItem_exchange settings item place hf hf'
  refine ⟨?_, ?_, ?_⟩
  · have hencloses : Encloses (fun g => (file g).text.toList)
        fun g => (ofItem settings (withBody item place g)).text.toList := by
      simp only [file, text_translate, List.map_append, List.map_cons, String.toList_append]
      exact .trans ⟨_, [], fun g => (List.append_nil _).symm⟩ (Text.encloses_concat _ _ _)
    have heq := hencloses.eq_iff f f'
    rw [String.toList_inj, String.toList_inj] at heq
    exact heq.trans htext
  · have hencloses : Encloses (fun g => (file g).findings)
        fun g => (ofItem settings (withBody item place g)).findings := by
      simp only [file, findings_translate]
      exact .flatMap _ _ _ _
    exact (hencloses.eq_iff f f').trans hfindings
  · simp only [file, unprocessed_translate, List.flatMap_append, List.flatMap_cons,
      unprocessed_withBody]

end Items

/-- A skipped field of a type. -/
def skippedField (t : Rust.TypeExpr) : Field := ⟨none, t, ⟨[], [⟨"serde", [⟨"skip", none⟩]⟩]⟩⟩

/-- A marked item with nothing in it. -/
def markedItem : Item := ⟨"E", [], ⟨[], [⟨"tsync", []⟩]⟩, .bare⟩

/-- An enum with one tuple variant shows the type of a skipped field of it, and a tuple struct does
not. -/
theorem translate_exchange_skippedField :
    let f := skippedField (.primitive "bool")
    let f' := skippedField (.path "Cache" [])
    let listed : FieldPlace := .variant [] ⟨"A", .tuple, [], none, ⟨[], []⟩⟩ [] [] []
    let unlisted : FieldPlace := .struct .tuple [] []
    (factsOf f).skip ∧ (factsOf f').skip ∧
      (translate default [withBody markedItem listed f]).text ≠
        (translate default [withBody markedItem listed f']).text ∧
      (translate default [withBody markedItem unlisted f]).text =
        (translate default [withBody markedItem unlisted f']).text := by
  intro f f' listed unlisted
  have hf : (factsOf f).skip := by decide
  have hf' : (factsOf f').skip := by decide
  refine ⟨hf, hf', ?_, ?_⟩
  · intro htext
    have htypes := (translate_exchange default markedItem listed hf hf' [] []).1.1 htext (by decide)
    exact absurd htypes (by decide)
  · exact (translate_exchange default markedItem unlisted hf hf' [] []).1.2 (by decide)

end Translate
end Ferrotype

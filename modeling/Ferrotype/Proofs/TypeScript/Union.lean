/-
# Unions of tagged members

A member of a union that is written with a tag is one alternative of the union, and it carries the
tag; only a union that is merged into the tag behind `&` falls apart into two. So the alternatives
of a union are its members one by one if and only if no member merges a union
(`exists_alternatives`).
-/

import Ferrotype.Proofs.TypeScript.Alternative
import Mathlib.Data.List.Forall2

namespace Ferrotype
namespace TypeScript

/-! ## Members -/

/-- Whether the types of a record have counterparts and what is merged is no union. -/
structure Record.IsPlain (r : Record) : Prop where
  properties : ∀ p ∈ r.properties, p.type.isPlain
  merged : ∀ t ∈ r.merged, t.isPlain ∧ t.isUnion = false

/-- Whether a type has a counterpart and is no union, or such a type or `null`. -/
def TypeExpr.IsPayload (t : TypeExpr) : Prop :=
  t.isPlain ∧ ∀ inner, t = .orNull inner → inner.isUnion = false

namespace Shape

/-- Whether a member is written with a tag, and its types have counterparts. -/
def IsTagged (tag : Tag) : Shape → Prop
  | .tag t => t = tag
  | .tagAnd t payload => t = tag ∧ payload.IsPayload
  | .tagWith t _ payload => t = tag ∧ payload.isPlain
  | .record t r => t = some tag ∧ r.IsPlain
  | .keyed t _ r => t = some tag ∧ r.IsPlain
  | .type _ => False
  | .label _ => False

/-- Whether a union is merged into the tag of a member. -/
def mergesUnion : Shape → Bool
  | .tagAnd _ payload => payload.isUnion
  | _ => false

end Shape

/-- A tag alone carries the tag. -/
theorem readTagged_tag (tag : Tag) : ReadTagged tag (Shape.tag tag).render :=
  readTagged_alone tag (fun _ => rfl) (fun _ => rfl)

/-- A tag with its content carries it. -/
theorem readTagged_tagWith (tag : Tag) (content : String) {payload : TypeExpr}
    (h : payload.isPlain) : ReadTagged tag (Shape.tagWith tag content payload).render := by
  have hkey : ReadFlat [] (propertyKey content) :=
    (readFlat_propertyKey content).mono (List.forall_mem_nil _)
  have hpayload : ReadFlat [] payload.render :=
    (readFlat_render payload h).1.mono (List.forall_mem_nil _)
  have hmore := (hkey.append (readFlat_of_isFree (by decide) : ReadFlat [] ": ")).append hpayload
  have hopening : Written "\x7b " [.char '\x7b'] := fun _ => rfl
  have hsemicolon : Written "; " [.char ';'] := fun _ => rfl
  have hclosing : Written " \x7d" [.char '\x7d'] := fun _ => rfl
  have hobject := readTagged_object tag hopening hsemicolon hmore hclosing
  simpa only [Shape.render, String.append_assoc] using hobject

/-- An object over several lines that starts with the line of a tag. -/
theorem readTagged_lines (tag : Tag) (level : Nat) {body : String} (h : ReadFlat [] body) :
    ReadTagged tag ("\x7b\n" ++ tagLine level (some tag) ++ body ++ "\x7d") := by
  have hline : Written "\x7b\n" [.char '\x7b'] := fun _ => rfl
  have hopening : Written ("\x7b\n" ++ indent level) [.char '\x7b'] :=
    hline.append (written_spaces _)
  have hsemicolon : Written ";\n" [.char ';'] := fun _ => rfl
  have hclosing : Written "\x7d" [.char '\x7d'] := fun _ => rfl
  have hobject := readTagged_object tag hopening hsemicolon h hclosing
  simpa only [tagLine, Option.map_some, Option.getD_some, Tag.line, String.append_assoc]
    using hobject

/-- An object whose first line is a tag carries it. -/
theorem readTagged_renderObject (tag : Tag) (level : Nat) {properties : List Property}
    (h : ∀ p ∈ properties, p.type.isPlain) :
    ReadTagged tag (renderObject level (some tag) properties) := by
  have hbody := (readFlat_properties (level + 1) h).append (readFlat_indent level)
  have hobject := readTagged_lines tag (level + 1) hbody
  simpa [renderObject, String.append_assoc] using hobject

/-- The record of a key carries it beside the key. -/
theorem readTagged_keyed (tag : Tag) (key : String) {r : Record} (h : r.IsPlain) :
    ReadTagged tag (Shape.keyed (some tag) key r).render := by
  have hkey : ReadFlat [] (propertyKey key) :=
    (readFlat_propertyKey key).mono (List.forall_mem_nil _)
  have hbody := ((((readFlat_indent (Shape.memberLevel + 1)).append hkey).append
    (readFlat_of_isFree (by decide) : ReadFlat [] ": ")).append
      (readFlat_record (Shape.memberLevel + 1) h.properties h.merged)).append
        ((readFlat_of_isFree (by decide) : ReadFlat [] ";\n").append
          (readFlat_indent Shape.memberLevel))
  have hobject := readTagged_lines tag (Shape.memberLevel + 1) hbody
  simpa only [Shape.render, String.append_assoc] using hobject

/-- A tag that is merged with a payload is written in front of it. -/
theorem render_tagAnd (tag : Tag) (payload : TypeExpr) :
    (Shape.tagAnd tag payload).render = (Shape.tag tag).render ++ (" & " ++ payload.render) := by
  have hsign : " \x7d & " = " \x7d" ++ " & " := by decide
  rw [Shape.render, Shape.render, hsign]
  simp only [String.append_assoc]

/-- **A tagged member is one alternative and carries its tag** if it merges no union. -/
theorem readAlternative_of_isTagged {tag : Tag} {shape : Shape} (h : shape.IsTagged tag)
    (hmerges : shape.mergesUnion = false) : ReadAlternative tag shape.render := by
  have halone {text : String} (htagged : ReadTagged tag text) : ReadAlternative tag text := by
    have hmerged := htagged.merged [] (List.forall_mem_nil _)
    rwa [renderMerged, List.map_nil, Text.concat_nil, String.append_empty] at hmerged
  cases shape with
  | tag t =>
    obtain rfl : t = tag := h
    exact halone (readTagged_tag t)
  | tagAnd t payload =>
    obtain ⟨rfl, hplain, -⟩ := h
    have hmerged := (readTagged_tag t).merged [payload]
      (List.forall_mem_singleton.2 ⟨hplain, hmerges⟩)
    rwa [renderMerged, List.map_singleton, Text.concat_cons, Text.concat_nil, String.append_empty,
      ← render_tagAnd] at hmerged
  | tagWith t content payload =>
    obtain ⟨rfl, hplain⟩ := h
    exact halone (readTagged_tagWith t content hplain)
  | record t r =>
    obtain ⟨rfl, hr⟩ := h
    exact (readTagged_renderObject tag Shape.memberLevel hr.properties).merged r.merged hr.merged
  | keyed t key r =>
    obtain ⟨rfl, hr⟩ := h
    exact halone (readTagged_keyed tag key hr)
  | type t => exact h.elim
  | label text => exact h.elim

/-! ## Alternatives -/

/-- Alternatives with a bar before each of them. -/
def barred (alternatives : List (List Lexeme)) : List Lexeme :=
  alternatives.flatMap (.char '|' :: ·)

/-- Flat alternatives with bars in front are cut at these. -/
theorem cut_barred {alternatives : List (List Lexeme)}
    (h : ∀ alternative ∈ alternatives, isFlat ['|'] 0 alternative) :
    cut '|' 0 (barred alternatives) = [] :: alternatives := by
  induction alternatives with
  | nil => rfl
  | cons alternative more ih =>
    obtain ⟨halternative, hmore⟩ := List.forall_mem_cons.1 h
    rw [barred, List.flatMap_cons, ← barred, List.cons_append, cut, if_pos ⟨rfl, rfl⟩,
      cut_of_isFlat (by decide) halternative, ih hmore]
    simp [prepend]

/-- Neither nothing nor `never` carries a tag. -/
theorem ne_of_carries {tag : Tag} {ls : List Lexeme} (h : Carries tag ls) :
    ls ≠ [] ∧ ls ≠ never := by
  obtain ⟨operand, hoperand, body, hbody, -⟩ := h
  constructor <;> rintro rfl
  · rw [operands, cut, List.mem_singleton, hbody] at hoperand
    cases hoperand
  · have hnever : operands never = [never] := by decide
    rw [hnever, List.mem_singleton, hbody] at hoperand
    cases hoperand

/-- Whether alternatives are read off the text of a member. -/
structure IsRead (tag : Tag) (shape : Shape) (alternatives : List (List Lexeme)) : Prop where
  written : Written ("| " ++ shape.render) (barred alternatives)
  proper : ∀ alternative ∈ alternatives,
    isFlat ['|'] 0 alternative ∧ alternative ≠ [] ∧ alternative ≠ never
  split : shape.mergesUnion → 1 < alternatives.length
  whole : shape.mergesUnion = false → ∃ alternative, alternatives = [alternative] ∧
    Carries tag alternative

/-- Every tagged shape is read as alternatives. A tag that is merged with a union gives several, and
not all of them carry it; any other shape gives one that does. -/
theorem exists_isRead {tag : Tag} {shape : Shape} (h : shape.IsTagged tag) :
    ∃ alternatives, IsRead tag shape alternatives := by
  have hbar : Written "| " [.char '|'] := fun _ => rfl
  cases hmerges : shape.mergesUnion with
  | false =>
    obtain ⟨ls, hls, hflat, hcarries⟩ := readAlternative_of_isTagged h hmerges
    refine ⟨[ls], ?_, ?_, ?_, ?_⟩
    · simpa [barred] using hbar.append hls
    · exact List.forall_mem_singleton.2 ⟨hflat, ne_of_carries hcarries⟩
    · rw [hmerges]
      exact fun hunion => absurd hunion Bool.false_ne_true
    · exact fun _ => ⟨ls, rfl, hcarries⟩
  | true =>
    obtain ⟨t, inner, rfl⟩ : ∃ t inner, shape = .tagAnd t (.orNull inner) := by
      cases shape with
      | tagAnd t payload =>
        cases payload with
        | orNull inner => exact ⟨t, inner, rfl⟩
        | _ => cases hmerges
      | _ => cases hmerges
    obtain ⟨rfl, hplain, hsingle⟩ := h
    have hinner : (Shape.tagAnd t inner).IsTagged t := by
      refine ⟨rfl, hplain, fun next hnext => ?_⟩
      have hunion := hsingle inner rfl
      rw [hnext] at hunion
      cases hunion
    obtain ⟨ls, hls, hflat, hcarries⟩ := readAlternative_of_isTagged hinner (hsingle inner rfl)
    have hnull : Written " | null" (.char '|' :: lexemes "null") := fun _ => rfl
    have htext : (Shape.tagAnd t (.orNull inner)).render =
        (Shape.tagAnd t inner).render ++ " | null" := by
      simp only [Shape.render, TypeExpr.render, String.append_assoc]
    refine ⟨[ls, lexemes "null"], ?_, ?_, fun _ => Nat.lt_succ_self 1, ?_⟩
    · rw [htext, ← String.append_assoc]
      simpa [barred] using (hbar.append hls).append hnull
    · rw [List.forall_mem_cons, List.forall_mem_singleton]
      exact ⟨⟨hflat, ne_of_carries hcarries⟩, by decide⟩
    · rw [hmerges]
      exact fun hunion => absurd hunion.symm Bool.false_ne_true

/-! ## Unions -/

section Members

variable {α : Type} {tag : α → Tag} {member : α → Member}

/-- A member has the lexemes of its shape behind a bar. -/
theorem written_member {m : Member} {ls : List Lexeme} (h : Written ("| " ++ m.shape.render) ls) :
    Written ("\n" ++ m.render) ls := by
  have hline : Written "\n" [] := fun _ => rfl
  have hwritten := hline.append (((written_renderComment (indentation 1) m.docs).append
    (written_spaces (indentation 1))).append h)
  have htext : "\n" ++ m.render = "\n" ++ (renderComment (indentation 1) m.docs ++
      Text.spaces (indentation 1) ++ ("| " ++ m.shape.render)) := by
    simp only [Member.render, indent, String.append_assoc]
  rw [htext]
  exact hwritten

/-- **The alternatives of a union are its members** one by one if and only if none of them merges
a union; there are never fewer of them. -/
theorem exists_alternatives {as : List α} (h : ∀ a ∈ as, (member a).shape.IsTagged (tag a)) :
    ∃ alternatives : List (List Lexeme),
      Written (Text.concat (as.map fun a => "\n" ++ (member a).render)) (barred alternatives) ∧
      (∀ alternative ∈ alternatives,
        isFlat ['|'] 0 alternative ∧ alternative ≠ [] ∧ alternative ≠ never) ∧
      as.length ≤ alternatives.length ∧
      (List.Forall₂ (fun a alternative => Carries (tag a) alternative) as alternatives ↔
        ∀ a ∈ as, (member a).shape.mergesUnion = false) := by
  induction as with
  | nil => exact ⟨[], written_empty, List.forall_mem_nil _, Nat.le_refl _, by simp⟩
  | cons a as ih =>
    obtain ⟨ha, has⟩ := List.forall_mem_cons.1 h
    obtain ⟨first, hwritten, hproper, hsplit, hwhole⟩ := exists_isRead ha
    obtain ⟨more, hmore, hproper', hlength, hiff⟩ := ih has
    refine ⟨first ++ more, ?_, List.forall_mem_append.2 ⟨hproper, hproper'⟩, ?_, ?_⟩
    · rw [List.map_cons, Text.concat_cons, barred, List.flatMap_append]
      exact (written_member hwritten).append hmore
    · have hfirst : 0 < first.length := by
        cases hmerges : (member a).shape.mergesUnion with
        | false =>
          obtain ⟨alternative, rfl, -⟩ := hwhole hmerges
          exact Nat.zero_lt_one
        | true => exact Nat.lt_of_succ_lt (hsplit hmerges)
      rw [List.length_append, List.length_cons]
      omega
    · rw [List.forall_mem_cons]
      cases hmerges : (member a).shape.mergesUnion with
      | false =>
        obtain ⟨alternative, rfl, hcarries⟩ := hwhole hmerges
        rw [List.singleton_append, List.forall₂_cons, hiff]
        exact and_congr_left' (iff_of_true hcarries rfl)
      | true =>
        refine iff_of_false (fun hall => ?_) (fun hall => Bool.noConfusion hall.1)
        have hequal := hall.length_eq
        have hmany := hsplit hmerges
        rw [List.length_append, List.length_cons] at hequal
        omega

end Members

/-- The alternatives of a union are what stands between its bars. -/
theorem alternatives_barred {pieces : List (List Lexeme)}
    (h : ∀ piece ∈ pieces, isFlat ['|'] 0 piece ∧ piece ≠ [] ∧ piece ≠ never) :
    alternatives (barred pieces) = pieces := by
  have hkept : pieces.filter (fun piece => !piece.isEmpty && piece != never) = pieces := by
    refine List.filter_eq_self.2 fun piece hpiece => ?_
    obtain ⟨-, hne, hnever⟩ := h piece hpiece
    rw [List.isEmpty_eq_false_iff.2 hne, bne_iff_ne.2 hnever]
    rfl
  rw [alternatives, cut_barred fun piece hpiece => (h piece hpiece).1, List.filter_cons_of_neg,
    hkept]
  decide

/-- The text of a union behind its equals sign. -/
def unionText (members : List Member) : String :=
  if members.isEmpty then " never" else Text.concat (members.map fun m => "\n" ++ m.render)

/-- The members of a union, each on its own line. -/
theorem newline_renderMembers {members : List Member} (h : members ≠ []) :
    "\n" ++ renderMembers members =
      Text.concat (members.map fun m => "\n" ++ m.render) ++ ";\n" := by
  fun_induction renderMembers members with
  | case1 => exact absurd rfl h
  | case2 m => simp [String.append_assoc]
  | case3 m n ms ih =>
    rw [String.append_assoc, ih (List.cons_ne_nil _ _)]
    simp only [List.map_cons, Text.concat_cons, String.append_assoc]

/-- The text of a union by that of its members. -/
theorem render_union (ambient : Bool) (name : String) (generics : List String)
    (members : List Member) :
    (Declaration.union name generics members).render ambient =
      Declaration.aliasHead ambient name generics ++ " =" ++ unionText members ++ ";\n" := by
  cases members with
  | nil =>
    have hrender : (Declaration.union name generics []).render ambient =
        Declaration.aliasHead ambient name generics ++ " =" ++ " never;\n" := rfl
    have hnever : " never;\n" = unionText [] ++ ";\n" := by decide
    rw [hrender, hnever, ← String.append_assoc]
  | cons m ms =>
    have hrender : (Declaration.union name generics (m :: ms)).render ambient =
        Declaration.aliasHead ambient name generics ++ " =" ++ ("\n" ++ renderMembers (m :: ms)) :=
      rfl
    have hmembers : "\n" ++ renderMembers (m :: ms) = unionText (m :: ms) ++ ";\n" :=
      newline_renderMembers (List.cons_ne_nil m ms)
    rw [hrender, hmembers, ← String.append_assoc]

section Members

variable {α : Type} {tag : α → Tag} {member : α → Member}

/-- **The text of a union is read as its members** one by one if and only if none of them merges a
union. -/
theorem forall₂_alternatives_unionText {as : List α}
    (h : ∀ a ∈ as, (member a).shape.IsTagged (tag a)) :
    List.Forall₂ (fun a alternative => Carries (tag a) alternative) as
        (alternatives (lexemes (unionText (as.map member)))) ↔
      ∀ a ∈ as, (member a).shape.mergesUnion = false := by
  obtain ⟨pieces, hwritten, hproper, -, hiff⟩ := exists_alternatives h
  cases as with
  | nil =>
    have hnever : alternatives (lexemes (unionText [])) = [] := by decide
    rw [List.map_nil, hnever]
    simp
  | cons a as =>
    have htext : unionText ((a :: as).map member) =
        Text.concat ((a :: as).map fun a => "\n" ++ (member a).render) := by
      rw [unionText, List.map_map, if_neg (by simp)]
      rfl
    rw [htext, hwritten.lexemes_eq, alternatives_barred hproper, hiff]

end Members

end TypeScript
end Ferrotype

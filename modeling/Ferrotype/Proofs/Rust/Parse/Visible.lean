/-
# Visibility is ignored

A visibility can stand in front of a declaration and in front of a field of a struct
(`VisibilitySite`). In front of what is read there it leaves no trace, with one exception
(`parseItems_visibility`): behind `pub`, the type of a field in parentheses is taken for the scope
of the visibility if it starts with a parenthesis itself. Then no type is left, and the whole source
is an error.
-/

import Ferrotype.Proofs.Rust.Parse.WhereClause

namespace Ferrotype
namespace Rust

/-! ## Where a visibility stands -/

/-- What a visibility can stand in front of. -/
inductive Holder
  | item
  | field (shape : StructShape)

/-- Whether a token of the kind can start what a visibility stands in front of: the keyword of a
declaration, the name of a field, or the type of one. -/
def Holder.starts : Holder → Kind → Bool
  | item, kind => keywordKinds.contains kind
  | field .named, kind => kind == .identifier
  | field .tuple, kind | field .unit, kind => !noTypeKinds.contains kind

/-- What can stand between the type parameters of a struct and its fields: in front of a brace a
where clause. -/
inductive Between : StructShape → List Token → Prop
  | none {shape : StructShape} : Between shape []
  | clause {w : Token} {cs : List Token} (hw : w.kind = .whereWord) (hcs : Covered cs) :
      Between .named (w :: cs)

/-- Tokens behind which a visibility can stand: complete items and the preamble of a declaration, or
a struct up to one of its fields and the preamble of the field. -/
inductive VisibilitySite (eof : Token) : Holder → List Token → Prop
  | item {xs front : List Token} {items : List Item} {p : Preamble} (hxs : Complete xs items)
      (hfront : IsPreamble eof front p) : VisibilitySite eof .item (xs ++ front)
  | field {before gs clause ts front : List Token} {items : List Item} {p q : Preamble}
      {t name opening : Token} {params : List String} {shape : StructShape} {fields : List Field}
      (hbefore : Front eof before items p) (ht : t.kind = .struct)
      (hname : name.kind = .identifier) (hgs : Generics gs params) (hclause : Between shape clause)
      (hshape : shape ≠ .unit) (hopening : opening.kind = shape.opener)
      (hts : Leading eof shape ts fields) (hfront : IsPreamble eof front q) :
      VisibilitySite eof (.field shape)
        (before ++ t :: name :: (gs ++ (clause ++ opening :: (ts ++ front))))

/-- Kinds that start nothing behind a site: a preamble would go on with them, or a list end. -/
def noHolderKinds : List Kind := [.doc, .hash, .rbrace, .rparen, .eof]

/-- What starts a struct, a field or a variant cannot be taken for a visibility or for its end. -/
theorem Holder.notMem_of_starts {holder : Holder} {kind : Kind} (h : holder.starts kind) :
    kind ∉ Kind.pub :: noHolderKinds := by
  revert h
  cases holder with
  | item => cases kind <;> decide
  | field shape => cases shape <;> cases kind <;> decide

/-- Only the type of a field can start with a parenthesis. -/
theorem VisibilitySite.eq_tuple_of_starts {eof : Token} {holder : Holder} {site : List Token}
    (hsite : VisibilitySite eof holder site) (h : holder.starts .lparen) :
    holder = .field .tuple := by
  cases holder with
  | item => cases h
  | field shape =>
    cases shape with
    | named => cases h
    | tuple => rfl
    | unit =>
      cases hsite with
      | field _ _ _ _ _ hshape => exact absurd rfl hshape

namespace Between

variable {shape : StructShape} {clause : List Token} (h : Between shape clause) {opening : Token}
  (hopening : opening.kind = shape.opener) (ws : List Token)
include h hopening

/-- Behind the name of a struct there are no parameters. -/
theorem headKind_ne_lt : headKind (clause ++ opening :: ws) ≠ .lt := by
  cases h with
  | none =>
    rw [List.nil_append, headKind_cons, hopening]
    cases shape <;> exact Kind.noConfusion
  | clause hw hcs => exact fun hlt => Kind.noConfusion (hw.symm.trans hlt)

/-- A clause is dropped up to what opens the body. -/
theorem dropWhere_append : dropWhere (clause ++ opening :: ws) = opening :: ws := by
  cases h with
  | none =>
    refine if_neg ?_
    rw [hopening]
    cases shape <;> exact Kind.noConfusion
  | clause hw hcs =>
    exact hcs.dropWhere_append hw (by rw [headKind_cons, hopening]; rfl)

end Between

/-! ## Fields -/

section Fields

variable {eof : Token} {shape : StructShape} {ts front ws : List Token} {fields : List Field}
  {q : Preamble}

/-- A field depends on what is left behind its visibility alone. -/
theorem outcome_field_congr {ws' : List Token} (h : dropVisibility ws = dropVisibility ws') :
    outcome (shape.field eof q ws) = outcome (shape.field eof q ws') := by
  cases shape with
  | named =>
    show outcome (namedField eof q ws) = outcome (namedField eof q ws')
    rw [outcome_namedField, outcome_namedField, h]
  | tuple | unit =>
    show outcome (tupleField eof q ws) = outcome (tupleField eof q ws')
    rw [outcome_tupleField, outcome_tupleField, h]

/-- Behind other fields and a preamble a field is read. -/
theorem outcome_fields_behind (hts : Leading eof shape ts fields) (hfront : IsPreamble eof front q)
    (hws : ∀ kind ∈ [Kind.doc, .hash, shape.closer, .eof], headKind ws ≠ kind) :
    outcome (shape.fields eof (ts ++ (front ++ ws))) = (outcome (shape.field eof q ws) >>=
      fun (field, rest) => outcome
        (membersBehind eof shape.separator (shape.field eof) shape.closer field rest)).map
          fun (more, rest) => (fields ++ more, rest) := by
  rw [outcome_leading hts, outcome_fields_of_isPreamble hfront hws]

end Fields

/-! ## Declarations and fields -/

/-- What can follow a visibility is no documentation, no attribute and no end of the fields. -/
theorem headKind_ne_of_noHolderKinds {ws : List Token} (hws : headKind ws ∉ noHolderKinds)
    (shape : StructShape) :
    ∀ kind ∈ [Kind.doc, .hash, shape.closer, .eof], headKind ws ≠ kind := by
  rintro kind hkind rfl
  revert hws hkind
  cases shape <;> cases headKind ws <;> decide

section Sites

variable {eof : Token} {holder : Holder} {site : List Token}
  (hsite : VisibilitySite eof holder site)
include hsite

/-- Of what stands behind a site all counts but the visibility. -/
theorem VisibilitySite.parseItems_congr {ws ws' : List Token}
    (hws : headKind ws ∉ noHolderKinds) (hws' : headKind ws' ∉ noHolderKinds)
    (h : dropVisibility ws = dropVisibility ws') :
    parseItems eof (site ++ ws) = parseItems eof (site ++ ws') := by
  have hne := fun shape => headKind_ne_of_noHolderKinds hws shape
  have hne' := fun shape => headKind_ne_of_noHolderKinds hws' shape
  cases hsite with
  | item hxs hfront =>
    rw [List.append_assoc, List.append_assoc, hxs.parseItems_behind, hxs.parseItems_behind,
      hfront.parseItems_behind (hne .named _ (by simp)) (hne .named _ (by simp)),
      hfront.parseItems_behind (hne' .named _ (by simp)) (hne' .named _ (by simp)), h]
  | field hbefore ht hname hgs hclause hshape hopening hts hfront =>
    simp only [List.cons_append, List.append_assoc]
    rw [hbefore.parseItems_fields ht hname hgs hshape hopening
        (hclause.headKind_ne_lt hopening _) (hclause.dropWhere_append hopening _),
      hbefore.parseItems_fields ht hname hgs hshape hopening
        (hclause.headKind_ne_lt hopening _) (hclause.dropWhere_append hopening _),
      outcome_fields_behind hts hfront (hne _), outcome_fields_behind hts hfront (hne' _),
      outcome_field_congr h]

/-- **Behind `pub` the parentheses of a type are taken for the scope of the visibility.** -/
theorem VisibilitySite.parseItems_parentheses (hholder : holder = .field .tuple)
    {pub opening closing next : Token} {inner : List Token} (hpub : pub.kind = .pub)
    (hopening : opening.kind = .lparen) (hinner : Nested inner) (hclosing : closing.kind = .rparen)
    (hnext : next.kind ∈ [Kind.comma, .rparen]) (ws : List Token) :
    parseItems eof (site ++ pub :: opening :: (inner ++ closing :: next :: ws)) =
      .error (.expectedType next) := by
  have hcloser : opening.kind.closer? = some closing.kind := by rw [hopening, hclosing]; rfl
  -- The type is passed over as a scope, so one is looked for where the field already ends.
  have hvisible : dropVisibility (pub :: opening :: (inner ++ closing :: next :: ws)) =
      next :: ws := by
    rw [dropVisibility, if_pos hpub, headKind_cons, if_pos hopening, dropUnit_group hcloser hinner]
  have hnone : next.kind ∈ noTypeKinds := by
    revert hnext
    cases next.kind <;> decide
  have hpub' : headKind (pub :: opening :: (inner ++ closing :: next :: ws)) ∉ noHolderKinds := by
    rw [headKind_cons, hpub]
    decide
  have hfield (q : Preamble) :
      outcome (tupleField eof q (pub :: opening :: (inner ++ closing :: next :: ws))) =
        .error (.expectedType next) := by
    rw [outcome_tupleField, hvisible, parseType_of_mem_noTypeKinds eof hnone]
    rfl
  cases hsite with
  | item => cases hholder
  | field hbefore ht hname hgs hclause hshape hopening' hts hfront =>
    cases hholder
    simp only [List.cons_append, List.append_assoc]
    rw [hbefore.parseItems_fields ht hname hgs hshape hopening'
        (hclause.headKind_ne_lt hopening' _) (hclause.dropWhere_append hopening' _),
      outcome_fields_behind hts hfront (headKind_ne_of_noHolderKinds hpub' _),
      StructShape.field, hfield]
    rfl

/-- **A visibility leaves no trace**, in front of declarations and of fields, but for `pub` in front
of a field of a tuple struct whose type starts with a parenthesis. There the source is an error. -/
theorem parseItems_visibility {v : Visibility} (hv : v.isWritable) {vs us : List Token}
    (hvs : piecesOf vs = v.pieces) (hus : holder.starts (headKind us)) :
    ((v = .everywhere → holder = .field .tuple → headKind us ≠ .lparen) →
      parseItems eof (site ++ (vs ++ us)) = parseItems eof (site ++ us)) ∧
    ∀ opening inner closing next ws, us = opening :: (inner ++ closing :: next :: ws) →
      v = .everywhere → holder = .field .tuple → opening.kind = .lparen → Nested inner →
      closing.kind = .rparen → next.kind ∈ [Kind.comma, .rparen] →
      parseItems eof (site ++ (vs ++ us)) = .error (.expectedType next) := by
  have hstarts := Holder.notMem_of_starts hus
  have hpub : headKind us ≠ .pub := fun h => hstarts (h ▸ List.mem_cons_self)
  have hstart : headKind us ∉ noHolderKinds := fun h => hstarts (List.mem_cons_of_mem _ h)
  refine ⟨fun hscope => ?_, ?_⟩
  · have hscope' : v = .everywhere → headKind us ≠ .lparen := fun hv hparen =>
      hscope hv (hsite.eq_tuple_of_starts (hparen ▸ hus)) hparen
    have hvisible : dropVisibility (vs ++ us) = us := dropVisibility_append hv hvs hpub hscope'
    have hbare : dropVisibility us = us :=
      @dropVisibility_append .inherited rfl [] us rfl hpub nofun
    have hstart' : headKind (vs ++ us) ∉ noHolderKinds := fun h =>
      headKind_append_visibility hvs (fun hkind => absurd (hkind ▸ h) (by decide))
        (fun hkind => hstart (hkind ▸ h)) rfl
    exact hsite.parseItems_congr hstart' hstart (hvisible.trans hbare.symm)
  · rintro opening inner closing next ws rfl rfl hholder hopening hinner hclosing hnext
    obtain ⟨pub, rest, rfl, hpub, -, hrest⟩ := exists_cons_of_piecesOf hvs
    obtain rfl := List.map_eq_nil_iff.1 hrest
    exact hsite.parseItems_parentheses hholder hpub hopening hinner hclosing hnext ws

end Sites

/-- The only field of a tuple struct is a tuple. Behind `pub(crate)` it is read, behind `pub` it is
taken for the scope, and the bracket that closes the list for a type. -/
theorem parseItems_visibility_pair :
    let eof := Token.eof ⟨1, 27⟩
    let site : List Token := [⟨.struct, "struct", ⟨1, 1⟩⟩, ⟨.identifier, "S", ⟨1, 8⟩⟩,
      ⟨.lparen, "(", ⟨1, 9⟩⟩]
    let everywhere : List Token := [⟨.pub, "pub", ⟨1, 10⟩⟩]
    let within : List Token := [⟨.pub, "pub", ⟨1, 10⟩⟩, ⟨.lparen, "(", ⟨1, 13⟩⟩,
      ⟨.identifier, "crate", ⟨1, 14⟩⟩, ⟨.rparen, ")", ⟨1, 19⟩⟩]
    let opening : Token := ⟨.lparen, "(", ⟨1, 14⟩⟩
    let inner : List Token := [⟨.identifier, "u8", ⟨1, 15⟩⟩, ⟨.comma, ",", ⟨1, 17⟩⟩,
      ⟨.identifier, "String", ⟨1, 19⟩⟩]
    let closing : Token := ⟨.rparen, ")", ⟨1, 25⟩⟩
    let next : Token := ⟨.rparen, ")", ⟨1, 26⟩⟩
    let us : List Token := opening :: (inner ++ closing :: next :: [⟨.semicolon, ";", ⟨1, 27⟩⟩])
    let crate : Visibility := .within [.name "crate"]
    (VisibilitySite eof (.field .tuple) site ∧ crate.isWritable ∧ piecesOf within = crate.pieces ∧
      piecesOf everywhere = Visibility.everywhere.pieces ∧
      (Holder.field .tuple).starts (headKind us) ∧ Nested inner) ∧
    parseItems eof (site ++ us) = .ok [⟨"S", [], ⟨[], []⟩,
      .struct .tuple [⟨none, .tuple [.primitive "u8", .primitive "String"], ⟨[], []⟩⟩]⟩] ∧
    parseItems eof (site ++ (within ++ us)) = parseItems eof (site ++ us) ∧
    parseItems eof (site ++ (everywhere ++ us)) = .error (.expectedType next) := by
  intro eof site everywhere within opening inner closing next us crate
  have hsite : VisibilitySite eof (.field .tuple) site :=
    @VisibilitySite.field eof [] [] [] [] [] [] _ _ _ _ _ [] .tuple [] (front_nil eof) rfl rfl .none
      .none StructShape.noConfusion rfl .nil (isPreamble_nil eof)
  have hinner : Nested inner := .plain rfl rfl <| .plain rfl rfl <| .plain rfl rfl .nil
  have htype : IsType eof (opening :: (inner ++ [closing]))
      (.tuple [.primitive "u8", .primitive "String"]) :=
    isType_of_readAsType eof ((PlainType.tuple [.scalar "u8", .scalar "String"]
      false).readAsType_of_isWritable eof (by decide)) rfl
  have hfields : FieldList eof .tuple (opening :: (inner ++ [closing, next]))
      [⟨none, .tuple [.primitive "u8", .primitive "String"], ⟨[], []⟩⟩] :=
    @FieldList.last _ _ [] [] _ _ _ _ _ .nil (isPreamble_nil eof)
      (@FieldTokens.tuple _ _ [] _ .inherited _ rfl rfl htype nofun) rfl
  have hread : parseItems eof (site ++ us) = .ok [⟨"S", [], ⟨[], []⟩,
      .struct .tuple [⟨none, .tuple [.primitive "u8", .primitive "String"], ⟨[], []⟩⟩]⟩] :=
    ((front_nil eof).parseItems_fieldList rfl rfl .none StructShape.noConfusion rfl hfields
      [⟨.semicolon, ";", ⟨1, 27⟩⟩]).trans (itemsBehind_nil eof [] _)
  refine ⟨⟨hsite, rfl, rfl, rfl, rfl, hinner⟩, hread, ?_, ?_⟩
  · exact (parseItems_visibility hsite (v := crate) rfl rfl rfl).1 fun h => Visibility.noConfusion h
  · exact (parseItems_visibility hsite (v := .everywhere) rfl rfl rfl).2 opening inner closing next
      _ rfl rfl rfl rfl hinner rfl (by decide)

end Rust
end Ferrotype

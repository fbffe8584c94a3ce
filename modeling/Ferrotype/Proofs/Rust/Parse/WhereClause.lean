/-
# Where clauses

A where clause is passed over up to the brace, the semicolon or the `=` behind it. Groups of
brackets are passed over as a whole, but angle brackets are no group. So a clause leaves no trace if
these signs stand inside parentheses and square brackets only (`Covered`); the `=` of a binding such
as `Iterator<Item = u8>` does not. Any other clause is read as if it ended in front of the first
sign that is not covered (`parseItems_where`): behind a binding this is an error.
-/

import Ferrotype.Proofs.Rust.Plain.Fields

namespace Ferrotype
namespace Rust

/-! ## Covered predicates -/

/-- Tokens of predicates in which the signs that end a where clause stand inside parentheses and
square brackets only. -/
inductive Covered : List Token → Prop
  | nil : Covered []
  | plain {t : Token} {ts : List Token} (hopens : t.kind.opens = false)
      (hcloses : t.kind.closes = false) (hends : endsWhere t.kind = false) (hts : Covered ts) :
      Covered (t :: ts)
  | group {t u : Token} {inner ts : List Token} (hcloser : t.kind.closer? = some u.kind)
      (hbrace : t.kind ≠ .lbrace) (hinner : Nested inner) (hts : Covered ts) :
      Covered (t :: (inner ++ u :: ts))

/-- A token that ends a where clause. -/
theorem endsWhere_of_opens {kind : Kind} (hopens : kind.opens) (hbrace : kind ≠ .lbrace) :
    endsWhere kind = false := by
  revert hopens hbrace
  cases kind <;> simp [Kind.opens, endsWhere]

namespace Covered

variable {cs : List Token}

/-- What a clause holds is nested. -/
theorem nested (h : Covered cs) : Nested cs := by
  induction h with
  | nil => exact .nil
  | plain hopens hcloses _ _ ih => exact .plain hopens hcloses ih
  | group hcloser _ hinner _ ih => exact .group hcloser hinner ih

/-- What a clause holds is dropped, whatever follows it. The induction is on what it holds. -/
theorem dropPredicates_append (h : Covered cs) (us : List Token) :
    dropPredicates (cs ++ us) = dropPredicates us := by
  induction h with
  | nil => rfl
  | @plain t ts hopens _ hends _ ih =>
    rw [List.cons_append, dropPredicates, if_neg (by simp [hends]), dropUnit,
      if_neg (by simp [hopens])]
    exact ih
  | @group t u inner ts hcloser hbrace hinner _ ih =>
    have hends := endsWhere_of_opens (Kind.opens_of_closer? hcloser) hbrace
    rw [List.cons_append, List.append_assoc, List.cons_append, dropPredicates,
      if_neg (by simp [hends]), dropUnit_group hcloser hinner]
    exact ih

/-- A clause whose signs are covered is passed over up to what ends it. -/
theorem dropWhere_append (h : Covered cs) {w : Token} (hw : w.kind = .whereWord) {us : List Token}
    (hus : endsWhere (headKind us)) : dropWhere (w :: (cs ++ us)) = us := by
  rw [dropWhere, if_pos hw, dropPredicates, if_neg (by simp [hw, endsWhere]), dropUnit,
    if_neg (by simp [hw, Kind.opens]), h.dropPredicates_append]
  cases us with
  | nil => cases hus
  | cons u us =>
    rw [headKind_cons] at hus
    rw [dropPredicates, if_pos hus]

/-- **Nested tokens are covered up to the first sign that is not.** -/
theorem or_exists_exposed (h : Nested cs) :
    Covered cs ∨ ∃ front e left, cs = front ++ e :: left ∧ Covered front ∧ endsWhere e.kind := by
  induction h with
  | nil => exact .inl .nil
  | @plain t ts hopens hcloses hts ih =>
    by_cases hends : endsWhere t.kind
    · exact .inr ⟨[], t, ts, rfl, .nil, hends⟩
    rw [Bool.not_eq_true] at hends
    rcases ih with hcovered | ⟨front, e, left, rfl, hfront, he⟩
    · exact .inl (.plain hopens hcloses hends hcovered)
    · exact .inr ⟨t :: front, e, left, rfl, .plain hopens hcloses hends hfront, he⟩
  | @group t u inner ts hcloser hinner hts _ ih =>
    -- Inside a group every sign is covered, so only what stands behind it can expose one.
    by_cases hbrace : t.kind = .lbrace
    · exact .inr ⟨[], t, inner ++ u :: ts, rfl, .nil, by rw [hbrace]; rfl⟩
    rcases ih with hcovered | ⟨front, e, left, rfl, hfront, he⟩
    · exact .inl (.group hcloser hbrace hinner hcovered)
    · refine .inr ⟨t :: (inner ++ u :: front), e, left, ?_, .group hcloser hbrace hinner hfront, he⟩
      simp

end Covered

/-- Nothing is dropped in front of what ends a clause. -/
theorem dropWhere_of_endsWhere {us : List Token} (hus : endsWhere (headKind us)) :
    dropWhere us = us := by
  cases us with
  | nil => rfl
  | cons u us =>
    refine if_neg fun hwhere => ?_
    rw [headKind_cons, hwhere] at hus
    cases hus

/-- What ends a clause opens no angle bracket. -/
theorem ne_lt_of_endsWhere {kind : Kind} (h : endsWhere kind) : kind ≠ .lt := by
  rintro rfl
  cases h

/-! ## Behind a declaration -/

/-- Tokens of a declaration behind which a where clause can stand, and the error for a binding in
the clause: it names the `=` of the binding or the token behind its type. -/
inductive ClauseSite (eof : Token) : List Token → (Token → Token → ParseError) → Prop
  | struct {t name : Token} {gs : List Token} {params : List String} (ht : t.kind = .struct)
      (hname : name.kind = .identifier) (hgs : Generics gs params) :
      ClauseSite eof (t :: name :: gs)
        fun e _ => .expected .semicolon e (.afterUnitStruct name.text)
  | tuple {t name opening : Token} {gs ts : List Token} {params : List String}
      {fields : List Field} (ht : t.kind = .struct) (hname : name.kind = .identifier)
      (hgs : Generics gs params) (hopening : opening.kind = .lparen)
      (hts : FieldList eof .tuple ts fields) :
      ClauseSite eof (t :: name :: (gs ++ opening :: ts))
        fun e _ => .expected .semicolon e (.afterTupleStruct name.text)
  | enum {t name : Token} {gs : List Token} {params : List String} (ht : t.kind = .enum)
      (hname : name.kind = .identifier) (hgs : Generics gs params) :
      ClauseSite eof (t :: name :: gs) fun e _ => .expected .lbrace e (.openingEnum name.text)
  | typeAlias {t name : Token} {gs : List Token} {params : List String} (ht : t.kind = .type)
      (hname : name.kind = .identifier) (hgs : Generics gs params) :
      ClauseSite eof (t :: name :: gs) fun _ g => .expected .semicolon g (.afterAlias name.text)

section Sites

variable {eof : Token} {before site : List Token} {items : List Item} {p : Preamble}
  {misread : Token → Token → ParseError} (hbefore : Front eof before items p)
  (hsite : ClauseSite eof site misread)
include hbefore hsite

/-- Of what stands behind a site all counts but the where clause. -/
theorem ClauseSite.parseItems_congr {ws ws' : List Token} (hws : headKind ws ≠ .lt)
    (hws' : headKind ws' ≠ .lt) (h : dropWhere ws = dropWhere ws') :
    parseItems eof (before ++ (site ++ ws)) = parseItems eof (before ++ (site ++ ws')) := by
  cases hsite with
  | @struct t name gs params ht hname hgs =>
    rw [List.cons_append, List.cons_append, List.cons_append, List.cons_append,
      hbefore.parseItems_struct hname hgs hws ht, hbefore.parseItems_struct hname hgs hws' ht, h]
  | @tuple t name opening gs ts params fields ht hname hgs hopening hts =>
    simp only [List.cons_append, List.append_assoc]
    rw [hbefore.parseItems_fieldList ht hname hgs StructShape.noConfusion hopening hts,
      hbefore.parseItems_fieldList ht hname hgs StructShape.noConfusion hopening hts,
      StructShape.dropEnd, StructShape.dropEnd, h]
  | @enum t name gs params ht hname hgs =>
    rw [List.cons_append, List.cons_append, List.cons_append, List.cons_append,
      hbefore.parseItems_enum hname hgs hws ht, hbefore.parseItems_enum hname hgs hws' ht, h]
  | @typeAlias t name gs params ht hname hgs =>
    rw [List.cons_append, List.cons_append, List.cons_append, List.cons_append,
      hbefore.parseItems_alias hname hgs hws ht, hbefore.parseItems_alias hname hgs hws' ht, h]

/-- **A binding that is taken for the end of a where clause is an error.** -/
theorem ClauseSite.parseItems_binding {e g : Token} {ts us : List Token} {value : TypeExpr}
    (he : e.kind = .eq) (hts : IsType eof ts value) (hg : g.kind ∈ [Kind.comma, .gt]) :
    parseItems eof (before ++ (site ++ e :: (ts ++ g :: us))) = .error (misread e g) := by
  have hlt : headKind (e :: (ts ++ g :: us)) ≠ .lt := by simp [he]
  have hend : dropWhere (e :: (ts ++ g :: us)) = e :: (ts ++ g :: us) :=
    dropWhere_of_endsWhere (by simp [he, endsWhere])
  cases hsite with
  | @struct t name gs params ht hname hgs =>
    rw [List.cons_append, List.cons_append, hbefore.parseItems_struct hname hgs hlt ht, hend,
      outcome_structBody_unit eof (by simp [he]) (by simp [he]),
      outcome_expect_ne eof (by simp [he])]
    rfl
  | @tuple t name opening gs fs params fields ht hname hgs hopening hfs =>
    simp only [List.cons_append, List.append_assoc]
    rw [hbefore.parseItems_fieldList ht hname hgs StructShape.noConfusion hopening hfs,
      StructShape.dropEnd, hend, outcome_expect_ne eof (by simp [he])]
    rfl
  | @enum t name gs params ht hname hgs =>
    rw [List.cons_append, List.cons_append, hbefore.parseItems_enum hname hgs hlt ht, hend,
      outcome_expect_ne eof (by simp [he])]
    rfl
  | @typeAlias t name gs params ht hname hgs =>
    -- An alias asks for this very sign: the type of the binding is read as that of the alias.
    have hfollows : headKind (g :: us) ∈ typeFollowers := by
      rw [headKind_cons]
      revert hg
      cases g.kind <;> simp [typeFollowers]
    have hsemicolon : g.kind ≠ .semicolon := by
      revert hg
      cases g.kind <;> simp
    rw [List.cons_append, List.cons_append, hbefore.parseItems_alias hname hgs hlt ht, hend,
      outcome_expect eof he]
    show outcome (parseType eof (ts ++ g :: us)) >>= _ = _
    rw [hts.outcome_eq hfollows]
    show outcome (expect eof .semicolon (.afterAlias name.text) (g :: us)) >>= _ = _
    rw [outcome_expect_ne eof hsemicolon]
    rfl

/-- **A where clause leaves no trace, if the signs in it are covered.** In any other clause there is
a first sign that is not, and it is taken for the end of the clause. If it is the `=` of a binding,
the source is an error. -/
theorem parseItems_where {w : Token} (hw : w.kind = .whereWord) {cs us : List Token}
    (hcs : Nested cs) (hus : endsWhere (headKind us)) :
    (Covered cs →
      parseItems eof (before ++ (site ++ w :: (cs ++ us))) =
        parseItems eof (before ++ (site ++ us))) ∧
    (¬ Covered cs → ∃ front e left, cs = front ++ e :: left ∧ Covered front ∧ endsWhere e.kind) ∧
    ∀ front e left, cs = front ++ e :: left → Covered front → endsWhere e.kind →
      parseItems eof (before ++ (site ++ w :: (cs ++ us))) =
        parseItems eof (before ++ (site ++ e :: (left ++ us))) ∧
      ∀ ts type g more, e.kind = .eq → left = ts ++ g :: more → IsType eof ts type →
        g.kind ∈ [Kind.comma, .gt] →
        parseItems eof (before ++ (site ++ w :: (cs ++ us))) = .error (misread e g) := by
  have hwhere (ts : List Token) : headKind (w :: ts) ≠ .lt := by simp [hw]
  refine ⟨fun hcovered => ?_, fun hexposed => (Covered.or_exists_exposed hcs).resolve_left hexposed,
    fun front e left hsplit hfront he => ?_⟩
  · refine hsite.parseItems_congr hbefore (hwhere _) (ne_lt_of_endsWhere hus) ?_
    rw [hcovered.dropWhere_append hw hus, dropWhere_of_endsWhere hus]
  · subst hsplit
    have hstop : endsWhere (headKind (e :: (left ++ us))) := he
    have hread : parseItems eof (before ++ (site ++ w :: ((front ++ e :: left) ++ us))) =
        parseItems eof (before ++ (site ++ e :: (left ++ us))) := by
      rw [List.append_assoc, List.cons_append]
      refine hsite.parseItems_congr hbefore (hwhere _) (ne_lt_of_endsWhere hstop) ?_
      rw [hfront.dropWhere_append hw hstop, dropWhere_of_endsWhere hstop]
    refine ⟨hread, fun ts type g more hkind hleft htype hg => ?_⟩
    rw [hread, hleft, List.append_assoc, List.cons_append,
      hsite.parseItems_binding hbefore hkind htype hg]

end Sites

/-- Behind a struct with one parameter the clause `I: Fn(u8) -> bool` leaves no trace; with
`I: Iterator<Item = u8>` in its place the struct is taken for a unit struct that ends at the `=`. -/
theorem parseItems_where_iterator :
    let eof := Token.eof ⟨2, 9⟩
    let site : List Token := [⟨.struct, "struct", ⟨1, 1⟩⟩, ⟨.identifier, "S", ⟨1, 8⟩⟩,
      ⟨.lt, "<", ⟨1, 9⟩⟩, ⟨.identifier, "I", ⟨1, 10⟩⟩, ⟨.gt, ">", ⟨1, 11⟩⟩]
    let misread (e _ : Token) : ParseError := .expected .semicolon e (.afterUnitStruct "S")
    let clause : Token := ⟨.whereWord, "where", ⟨1, 13⟩⟩
    let function : List Token := [⟨.identifier, "I", ⟨1, 19⟩⟩, ⟨.colon, ":", ⟨1, 20⟩⟩,
      ⟨.identifier, "Fn", ⟨1, 22⟩⟩, ⟨.lparen, "(", ⟨1, 24⟩⟩, ⟨.identifier, "u8", ⟨1, 25⟩⟩,
      ⟨.rparen, ")", ⟨1, 27⟩⟩, ⟨.arrow, "->", ⟨1, 29⟩⟩, ⟨.identifier, "bool", ⟨1, 32⟩⟩]
    let front : List Token := [⟨.identifier, "I", ⟨1, 19⟩⟩, ⟨.colon, ":", ⟨1, 20⟩⟩,
      ⟨.identifier, "Iterator", ⟨1, 22⟩⟩, ⟨.lt, "<", ⟨1, 30⟩⟩, ⟨.identifier, "Item", ⟨1, 31⟩⟩]
    let sign : Token := ⟨.eq, "=", ⟨1, 36⟩⟩
    let type : List Token := [⟨.identifier, "u8", ⟨1, 38⟩⟩]
    let closing : Token := ⟨.gt, ">", ⟨1, 40⟩⟩
    let us : List Token := [⟨.lbrace, "\x7b", ⟨2, 1⟩⟩, ⟨.identifier, "a", ⟨2, 3⟩⟩,
      ⟨.colon, ":", ⟨2, 4⟩⟩, ⟨.identifier, "I", ⟨2, 6⟩⟩, ⟨.rbrace, "\x7d", ⟨2, 8⟩⟩]
    (Front eof [] [] ⟨[], []⟩ ∧ ClauseSite eof site misread ∧ Covered function ∧
      Nested (front ++ sign :: (type ++ [closing])) ∧ Covered front ∧
      IsType eof type (.primitive "u8") ∧ endsWhere (headKind us)) ∧
    parseItems eof (site ++ us) = .ok [⟨"S", ["I"], ⟨[], []⟩,
      .struct .named [⟨some "a", .path "I" [], ⟨[], []⟩⟩]⟩] ∧
    parseItems eof (site ++ clause :: (function ++ us)) = parseItems eof (site ++ us) ∧
    parseItems eof (site ++ clause :: ((front ++ sign :: (type ++ [closing])) ++ us)) =
      .error (misread sign closing) := by
  intro eof site misread clause function front sign type closing us
  have hgs : Generics (site.drop 2) ["I"] := @Generics.list _ _ [_] _ rfl (.last rfl .nil) rfl
  have hsite : ClauseSite eof site misread := .struct rfl rfl hgs
  have hfunction : Covered function :=
    .plain rfl rfl rfl <| .plain rfl rfl rfl <| .plain rfl rfl rfl <|
      @Covered.group _ _ [_] _ rfl Kind.noConfusion (.plain rfl rfl .nil) <|
        .plain rfl rfl rfl <| .plain rfl rfl rfl .nil
  have hfront : Covered front :=
    .plain rfl rfl rfl <| .plain rfl rfl rfl <| .plain rfl rfl rfl <| .plain rfl rfl rfl <|
      .plain rfl rfl rfl .nil
  have hbinding : Nested (front ++ sign :: (type ++ [closing])) :=
    .plain rfl rfl <| .plain rfl rfl <| .plain rfl rfl <| .plain rfl rfl <| .plain rfl rfl <|
      .plain rfl rfl <| .plain rfl rfl <| .plain rfl rfl .nil
  have htype : IsType eof type (.primitive "u8") :=
    isType_of_readAsType eof (readAsType_scalar eof (by decide)) rfl
  have hfield : IsType eof [⟨.identifier, "I", ⟨2, 6⟩⟩] (.path "I" []) :=
    isType_of_readAsType eof (@readAsType_name eof "I" (by decide)) rfl
  have hfields : FieldList eof .named (us.drop 1) [⟨some "a", .path "I" [], ⟨[], []⟩⟩] :=
    @FieldList.last _ _ [] [] _ _ _ _ _ .nil (isPreamble_nil eof)
      (@FieldTokens.named _ _ [] _ .inherited _ _ _ rfl rfl rfl rfl hfield) rfl
  have hread : parseItems eof (site ++ us) = .ok [⟨"S", ["I"], ⟨[], []⟩,
      .struct .named [⟨some "a", .path "I" [], ⟨[], []⟩⟩]⟩] :=
    ((front_nil eof).parseItems_fieldList rfl rfl hgs StructShape.noConfusion rfl hfields []).trans
      (itemsBehind_nil eof [] _)
  refine ⟨⟨front_nil eof, hsite, hfunction, hbinding, hfront, htype, rfl⟩, hread, ?_, ?_⟩
  · exact (parseItems_where (front_nil eof) hsite rfl hfunction.nested rfl).1 hfunction
  · exact ((parseItems_where (front_nil eof) hsite rfl hbinding rfl).2.2 front sign _ rfl hfront
      rfl).2 type _ closing [] rfl rfl htype (by decide)

end Rust
end Ferrotype

/-
# Items in continued token lists

Members are read again up to the bracket that closes them, and so is every item up to the token
that ends it (`repeats_parseItem`). An item that is skipped may end with the tokens; then a
semicolon that follows them is skipped as well, but it would be skipped as an item of its own. So
the items of tokens with more behind them are their own and then those of the rest
(`parseItems_continues`).
-/

import Ferrotype.Proofs.Rust.Parse.Continue.Attribute
import Ferrotype.Proofs.Rust.Parse.Continue.Expr
import Ferrotype.Proofs.Rust.Parse.Continue.Type
import Ferrotype.Proofs.Rust.Walk.Item

namespace Ferrotype
namespace Rust

variable {ws ts us : List Token}

/-! ## Members -/

/-- Members are read again if each member is. -/
theorem repeats_members {α : Type} {eof eof' : Token} {closer : Kind}
    {separator separator' : α → Place}
    (member member' : Preamble → (ts : List Token) → Result (Parsed α ts.length))
    (hcloser : closer ≠ .eof)
    (hmember : ∀ {p ts us m}, Continues ws ts us → member p ts = .ok m → Settled ws m.rest →
      Repeats ws m (member' p us))
    {p : Parsed (List α) ts.length} (h : Continues ws ts us)
    (hp : members eof closer separator member ts = .ok p) :
    Repeats ws p (members eof' closer separator' member' us) := by
  induction ts using members.induct (α := α) closer generalizing us with
  | case1 =>
    rw [members] at hp
    cases hp
  | case2 t ts hkind =>
    rw [members, if_pos hkind] at hp
    cases hp
    obtain ⟨q, us, rfl, htail⟩ := h.cons
    rw [members, if_pos hkind]
    exact repeats_ok rfl htail
  | case3 t ts hkind ih =>
    obtain ⟨docs, hdocs, -⟩ := exists_of_bind_ok (by rwa [members, if_neg hkind] at hp)
    by_cases hclose : headKind docs.rest = closer
    · have hsettled : Settled ws docs.rest := .inl (ne_nil_of_headKind hclose hcloser)
      rw [members_of_closer eof separator member hkind hdocs hclose] at hp
      cases hp
      obtain ⟨docs', hdocs', -, hleft⟩ := repeats_preamble eof' h hdocs hsettled
      obtain ⟨q, us, rfl, -⟩ := h.cons
      have hclose' : headKind docs'.rest = closer := by rwa [hleft.headKind hsettled]
      rw [members_of_closer (t := ⟨t.kind, t.text, q⟩) eof' separator' member' hkind hdocs' hclose']
      exact repeats_ok rfl (hleft.drop_one hsettled)
    · rw [members_of_member eof separator member hkind hdocs hclose] at hp
      obtain ⟨m, hm, hp⟩ := exists_of_bind_ok hp
      obtain ⟨ms, hms, hp⟩ := exists_of_bind_ok hp
      cases hp
      have hsettled : Settled ws docs.rest := .inl (ne_nil_of_parsed m)
      obtain ⟨docs', hdocs', hvalue, hleft⟩ := repeats_preamble eof' h hdocs hsettled
      obtain ⟨m', hm', hmember', hend⟩ := hmember hleft hm (.inl (ne_nil_of_parseSeparated hms))
      obtain ⟨ms', hms', hvalues, hrest⟩ :
          Repeats ws ms (membersBehind eof' separator' member' closer m'.value m'.rest) := by
        rw [hmember']
        exact repeats_parseSeparated hend hms fun u us hrest us p hus hp =>
          ih docs m u _ hrest hus hp
      obtain ⟨q, us, rfl, -⟩ := h.cons
      have hclose' : headKind docs'.rest ≠ closer := by rwa [hleft.headKind hsettled]
      rw [members_of_member (t := ⟨t.kind, t.text, q⟩) eof' separator' member' hkind hdocs' hclose',
        hvalue]
      exact repeats_bind hm' (repeats_bind hms' (repeats_ok hvalues hrest))

section Members

variable {eof : Token} (eof' : Token)

/-- A field with a name is read again. -/
theorem repeats_namedField {docs : Preamble} {p : Parsed Field ts.length} (h : Continues ws ts us)
    (hp : namedField eof docs ts = .ok p) (hs : Settled ws p.rest) :
    Repeats ws p (namedField eof' docs us) := by
  obtain ⟨name, hname, hp⟩ := exists_of_bind_ok hp
  obtain ⟨colon, hcolon, hp⟩ := exists_of_bind_ok hp
  obtain ⟨type, htype, hp⟩ := exists_of_bind_ok hp
  cases hp
  have hts : Settled ws ts :=
    Settled.of_suffix (.inl (ne_nil_of_parsed name)) (Walk.passes_skipVisibility ts).suffix
  obtain ⟨name', hname', htext, hleft⟩ := exists_expect (h.dropVisibility hts) hname
  obtain ⟨colon', hcolon', -, hleft⟩ := exists_expect hleft hcolon
  obtain ⟨type', htype', hvalue, hrest⟩ := repeats_parseType eof eof' hleft htype hs
  refine repeats_bind hname' (repeats_bind hcolon' (repeats_bind htype' (repeats_ok ?_ hrest)))
  simp only [htext, hvalue]

/-- A field by position is read again. -/
theorem repeats_tupleField {docs : Preamble} {p : Parsed Field ts.length} (h : Continues ws ts us)
    (hp : tupleField eof docs ts = .ok p) (hs : Settled ws p.rest) :
    Repeats ws p (tupleField eof' docs us) := by
  obtain ⟨type, htype, hp⟩ := exists_of_bind_ok hp
  cases hp
  have hts : Settled ws ts :=
    Settled.of_suffix (.inl (ne_nil_of_parsed type)) (Walk.passes_skipVisibility ts).suffix
  obtain ⟨type', htype', hvalue, hrest⟩ :=
    repeats_parseType eof eof' (h.dropVisibility hts) htype hs
  refine repeats_bind htype' (repeats_ok ?_ hrest)
  simp only [Parsed.value_widen, Parsed.value_map, hvalue]

/-- Fields with names are read again. -/
theorem repeats_namedFields {p : Parsed (List Field) ts.length} (h : Continues ws ts us)
    (hp : namedFields eof ts = .ok p) : Repeats ws p (namedFields eof' us) :=
  repeats_members (namedField eof) (namedField eof') Kind.noConfusion (repeats_namedField eof') h hp

/-- Fields by position are read again. -/
theorem repeats_tupleFields {p : Parsed (List Field) ts.length} (h : Continues ws ts us)
    (hp : tupleFields eof ts = .ok p) : Repeats ws p (tupleFields eof' us) :=
  repeats_members (tupleField eof) (tupleField eof') Kind.noConfusion (repeats_tupleField eof') h hp

/-- The fields of a variant are read again, in each of its three shapes. -/
theorem repeats_variantFields {p : Parsed (VariantShape × List Field) (ts.length + 1)}
    (h : Continues ws ts us) (hp : variantFields eof ts = .ok p) (hs : Settled ws p.rest) :
    Repeats ws p (variantFields eof' us) := by
  cases ts with
  | nil =>
    cases hp
    obtain ⟨rfl, rfl⟩ := h.eq_nil hs
    exact repeats_ok rfl h
  | cons t ts =>
    obtain ⟨q, us, rfl, htail⟩ := h.cons
    simp only [variantFields] at hp ⊢
    split at hp
    · rename_i hbrace
      obtain ⟨fields, hfields, hp⟩ := exists_of_bind_ok hp
      cases hp
      obtain ⟨fields', hfields', hvalue, hrest⟩ := repeats_namedFields eof' htail hfields
      rw [if_pos hbrace]
      exact repeats_bind hfields' (repeats_ok (congrArg (VariantShape.named, ·) hvalue) hrest)
    · rename_i hbrace
      rw [if_neg hbrace]
      split at hp
      · rename_i hparen
        obtain ⟨fields, hfields, hp⟩ := exists_of_bind_ok hp
        cases hp
        obtain ⟨fields', hfields', hvalue, hrest⟩ := repeats_tupleFields eof' htail hfields
        rw [if_pos hparen]
        exact repeats_bind hfields' (repeats_ok (congrArg (VariantShape.tuple, ·) hvalue) hrest)
      · rename_i hparen
        cases hp
        rw [if_neg hparen]
        exact repeats_ok rfl h

/-- A variant is read again. -/
theorem repeats_variant {enumName : String} {docs : Preamble} {p : Parsed Variant ts.length}
    (h : Continues ws ts us) (hp : variant eof enumName docs ts = .ok p)
    (hs : Settled ws p.rest) : Repeats ws p (variant eof' enumName docs us) := by
  obtain ⟨name, hname, hp⟩ := exists_of_bind_ok hp
  obtain ⟨fields, hfields, hp⟩ := exists_of_bind_ok hp
  cases hp
  obtain ⟨name', hname', htext, hleft⟩ := exists_expect h hname
  obtain ⟨fields', hfields', hvalue, hleft⟩ :=
    repeats_variantFields eof' hleft hfields (hs.of_suffix (Walk.passes_discriminant _).suffix)
  obtain ⟨hdiscriminant, hrest⟩ := hleft.discriminant hs
  refine repeats_bind hname' (repeats_bind hfields' (repeats_ok ?_ hrest))
  simp only [htext, hvalue, hdiscriminant]

end Members

/-! ## Items -/

section Items

variable {eof : Token} (eof' : Token)

/-- A struct has a body. -/
theorem ne_nil_of_structBody {name : String} {p : Parsed Body (ts.length + 1)}
    (hp : structBody eof name ts = .ok p) : ts ≠ [] := by
  rintro rfl
  cases hp

/-- The body of a struct is read again, in each of its three shapes. -/
theorem repeats_structBody {name : String} {p : Parsed Body (ts.length + 1)}
    (h : Continues ws ts us) (hp : structBody eof name ts = .ok p) :
    Repeats ws p (structBody eof' name us) := by
  cases ts with
  | nil => cases hp
  | cons t ts =>
    obtain ⟨q, us, rfl, htail⟩ := h.cons
    simp only [structBody] at hp ⊢
    split at hp
    · rename_i hbrace
      obtain ⟨fields, hfields, hp⟩ := exists_of_bind_ok hp
      cases hp
      obtain ⟨fields', hfields', hvalue, hrest⟩ := repeats_namedFields eof' htail hfields
      rw [if_pos hbrace]
      exact repeats_bind hfields' (repeats_ok (congrArg (Body.struct .named) hvalue) hrest)
    · rename_i hbrace
      rw [if_neg hbrace]
      split at hp
      · rename_i hparen
        obtain ⟨fields, hfields, hp⟩ := exists_of_bind_ok hp
        obtain ⟨closing, hclosing, hp⟩ := exists_of_bind_ok hp
        cases hp
        obtain ⟨fields', hfields', hvalue, hleft⟩ := repeats_tupleFields eof' htail hfields
        obtain ⟨closing', hclosing', -, hrest⟩ :=
          exists_expect (hleft.dropWhere (.inl (ne_nil_of_parsed closing))) hclosing
        rw [if_pos hparen]
        exact repeats_bind hfields' (repeats_bind hclosing'
          (repeats_ok (congrArg (Body.struct .tuple) hvalue) hrest))
      · rename_i hparen
        obtain ⟨closing, hclosing, hp⟩ := exists_of_bind_ok hp
        cases hp
        obtain ⟨closing', hclosing', -, hrest⟩ := exists_expect h hclosing
        rw [if_neg hparen]
        exact repeats_bind hclosing' (repeats_ok rfl hrest)

variable {docs : Preamble} {p : Parsed Item ts.length}

/-- Structs are read again. -/
theorem repeats_parseStruct (h : Continues ws ts us) (hp : parseStruct eof docs ts = .ok p) :
    Repeats ws p (parseStruct eof' docs us) := by
  obtain ⟨name, hname, hp⟩ := exists_of_bind_ok hp
  obtain ⟨params, hparams, hp⟩ := exists_of_bind_ok hp
  obtain ⟨body, hbody, hp⟩ := exists_of_bind_ok hp
  cases hp
  have hwhere : Settled ws (dropWhere params.rest) := .inl (ne_nil_of_structBody hbody)
  obtain ⟨name', hname', htext, hleft⟩ := exists_expect h hname
  obtain ⟨params', hparams', hparamsValue, hleft⟩ :=
    repeats_generics eof' hleft hparams (hwhere.of_suffix (Walk.passes_skipWhere _).suffix)
  obtain ⟨body', hbody', hvalue, hrest⟩ := repeats_structBody eof' (hleft.dropWhere hwhere) hbody
  rw [← htext] at hbody'
  refine repeats_bind hname' (repeats_bind hparams' (repeats_bind hbody' (repeats_ok ?_ hrest)))
  simp only [htext, hparamsValue, hvalue]

/-- Enums are read again. -/
theorem repeats_parseEnum (h : Continues ws ts us) (hp : parseEnum eof docs ts = .ok p) :
    Repeats ws p (parseEnum eof' docs us) := by
  obtain ⟨name, hname, hp⟩ := exists_of_bind_ok hp
  obtain ⟨params, hparams, hp⟩ := exists_of_bind_ok hp
  obtain ⟨opening, hopening, hp⟩ := exists_of_bind_ok hp
  obtain ⟨variants, hvariants, hp⟩ := exists_of_bind_ok hp
  cases hp
  have hwhere : Settled ws (dropWhere params.rest) := .inl (ne_nil_of_parsed opening)
  obtain ⟨name', hname', htext, hleft⟩ := exists_expect h hname
  obtain ⟨params', hparams', hparamsValue, hleft⟩ :=
    repeats_generics eof' hleft hparams (hwhere.of_suffix (Walk.passes_skipWhere _).suffix)
  obtain ⟨opening', hopening', -, hleft⟩ := exists_expect (hleft.dropWhere hwhere) hopening
  obtain ⟨variants', hvariants', hvalue, hrest⟩ :=
    repeats_members (variant eof name.value.text) (variant eof' name.value.text) Kind.noConfusion
      (repeats_variant eof') hleft hvariants
  rw [← htext] at hvariants'
  refine repeats_bind hname' (repeats_bind hparams' (repeats_bind hopening'
    (repeats_bind hvariants' (repeats_ok ?_ hrest))))
  simp only [htext, hparamsValue, hvalue]

/-- Constants are read again. -/
theorem repeats_parseConst (h : Continues ws ts us) (hp : parseConst eof docs ts = .ok p) :
    Repeats ws p (parseConst eof' docs us) := by
  obtain ⟨name, hname, hp⟩ := exists_of_bind_ok hp
  obtain ⟨colon, hcolon, hp⟩ := exists_of_bind_ok hp
  obtain ⟨type, htype, hp⟩ := exists_of_bind_ok hp
  obtain ⟨value, hvalue, hp⟩ := exists_of_bind_ok hp
  obtain ⟨closing, hclosing, hp⟩ := exists_of_bind_ok hp
  cases hp
  have hsettled : Settled ws value.rest := .inl (ne_nil_of_parsed closing)
  obtain ⟨name', hname', htext, hleft⟩ := exists_expect h hname
  obtain ⟨colon', hcolon', -, hleft⟩ := exists_expect hleft hcolon
  obtain ⟨type', htype', htypeValue, hleft⟩ := repeats_parseType eof eof' hleft htype
    (hsettled.of_suffix ((Walk.follows_constValue _).suffix hvalue))
  obtain ⟨value', hvalue', hconst, hleft⟩ := repeats_constValue eof eof' hleft hvalue hsettled
  obtain ⟨closing', hclosing', -, hrest⟩ := exists_expect hleft hclosing
  refine repeats_bind hname' (repeats_bind hcolon' (repeats_bind htype' (repeats_bind hvalue'
    (repeats_bind hclosing' (repeats_ok ?_ hrest)))))
  simp only [htext, htypeValue, hconst]

/-- Type aliases are read again. -/
theorem repeats_parseAlias (h : Continues ws ts us) (hp : parseAlias eof docs ts = .ok p) :
    Repeats ws p (parseAlias eof' docs us) := by
  obtain ⟨name, hname, hp⟩ := exists_of_bind_ok hp
  obtain ⟨params, hparams, hp⟩ := exists_of_bind_ok hp
  obtain ⟨eq, heq, hp⟩ := exists_of_bind_ok hp
  obtain ⟨type, htype, hp⟩ := exists_of_bind_ok hp
  obtain ⟨closing, hclosing, hp⟩ := exists_of_bind_ok hp
  cases hp
  have hwhere : Settled ws (dropWhere params.rest) := .inl (ne_nil_of_parsed eq)
  obtain ⟨name', hname', htext, hleft⟩ := exists_expect h hname
  obtain ⟨params', hparams', hparamsValue, hleft⟩ :=
    repeats_generics eof' hleft hparams (hwhere.of_suffix (Walk.passes_skipWhere _).suffix)
  obtain ⟨eq', heq', -, hleft⟩ := exists_expect (hleft.dropWhere hwhere) heq
  obtain ⟨type', htype', htypeValue, hleft⟩ :=
    repeats_parseType eof eof' hleft htype (.inl (ne_nil_of_parsed closing))
  obtain ⟨closing', hclosing', -, hrest⟩ := exists_expect hleft hclosing
  refine repeats_bind hname' (repeats_bind hparams' (repeats_bind heq' (repeats_bind htype'
    (repeats_bind hclosing' (repeats_ok ?_ hrest)))))
  simp only [htext, hparamsValue, htypeValue]

/-- **An item is read again.** It ends with a token of its own, so what follows does not count. -/
theorem repeats_parseItem {t : Token} (q : Position) (h : Continues ws ts us)
    (hidentifier : t.kind = .const → headKind us = headKind ts)
    (hp : parseItem eof docs t ts = .ok (some p)) :
    ∃ item, parseItem eof' docs ⟨t.kind, t.text, q⟩ us = .ok (some item) ∧
      item.value = p.value ∧ Continues ws p.rest item.rest := by
  have hsome {result : Result (Parsed Item us.length)} (hresult : Repeats ws p result) :
      ∃ item, result.map some = .ok (some item) ∧ item.value = p.value ∧
        Continues ws p.rest item.rest := by
    obtain ⟨item, rfl, hvalue, hrest⟩ := hresult
    exact ⟨item, rfl, hvalue, hrest⟩
  unfold parseItem at hp ⊢
  split at hp
  · rename_i hkind
    rw [if_pos hkind]
    exact hsome (repeats_parseStruct eof' h (ok_of_map_some hp))
  · rename_i hkind
    rw [if_neg hkind]
    split at hp
    · rename_i hkind
      rw [if_pos hkind]
      exact hsome (repeats_parseEnum eof' h (ok_of_map_some hp))
    · rename_i hkind
      rw [if_neg hkind]
      split at hp
      · rename_i hkind
        rw [if_pos ⟨hkind.1, (hidentifier hkind.1).trans hkind.2⟩]
        exact hsome (repeats_parseConst eof' h (ok_of_map_some hp))
      · rename_i hkind
        rw [if_neg fun hc => hkind ⟨hc.1, (hidentifier hc.1).symm.trans hc.2⟩]
        split at hp
        · rename_i hkind
          rw [if_pos hkind]
          exact hsome (repeats_parseAlias eof' h (ok_of_map_some hp))
        · cases hp

/-- A token that starts no item starts none again. -/
theorem parseItem_eq_none {t : Token} (q : Position)
    (hidentifier : t.kind = .const → headKind us = headKind ts)
    (hp : parseItem eof docs t ts = .ok none) :
    parseItem eof' docs ⟨t.kind, t.text, q⟩ us = .ok none := by
  have hnone {result : Result (Parsed Item ts.length)} (h : result.map some = .ok none) :
      False := by
    cases result <;> cases h
  unfold parseItem at hp ⊢
  split at hp
  · exact (hnone hp).elim
  · rename_i hstruct
    split at hp
    · exact (hnone hp).elim
    · rename_i henum
      split at hp
      · exact (hnone hp).elim
      · rename_i hconst
        split at hp
        · exact (hnone hp).elim
        · rename_i htype
          rw [if_neg hstruct, if_neg henum, if_neg fun hc =>
            hconst ⟨hc.1, (hidentifier hc.1).symm.trans hc.2⟩, if_neg htype]

end Items

/-! ## Token lists -/

section Tokens

/-- A unit that ends no item is followed by a token. -/
theorem Continues.settled_dropUnit {t : Token} (h : Continues ws (t :: ts) us)
    (hends : t.kind.endsItem = false) (hbrace : t.kind ≠ .lbrace) :
    Settled ws (Rust.dropUnit (t :: ts)) := by
  rcases h.closed with hws | hsealed
  · exact .inr hws
  · refine .inl fun hnil => ?_
    rw [Rust.dropUnit] at hnil
    split at hnil
    · rename_i hopens
      rw [closeGroup_eq_drop_fromCloser] at hnil
      obtain ⟨closer, hcloser, hne⟩ := Kind.closer?_of_opens hopens
      have hhead := hsealed.closed (List.suffix_refl _) hcloser
      have hsuffix : fromCloser 0 ts <:+ t :: ts :=
        (Walk.passes_skipRaw _ _ _).suffix.trans (List.suffix_cons _ _)
      obtain ⟨u, hu⟩ : ∃ u, fromCloser 0 ts = [u] := by
        generalize fromCloser 0 ts = closing at hhead hnil
        cases closing with
        | nil => exact absurd hhead.symm hne
        | cons u rest => exact ⟨u, congrArg (u :: ·) hnil⟩
      rw [hu] at hhead hsuffix
      have hlast := hsealed.ends hsuffix
      rw [headKind_cons] at hhead
      rw [hhead] at hlast
      revert hcloser hlast hbrace
      cases t.kind <;> simp [Kind.closer?, Kind.endsItem] <;> rintro rfl <;> simp
    · have hlast := hsealed.ends (hnil ▸ List.suffix_refl [t] : [t] <:+ t :: ts)
      rw [hlast] at hends
      cases hends

/-- Behind a visibility the next token is known, since none ends an item. -/
theorem Continues.settled_dropVisibility (h : Continues ws ts us) (hs : Settled ws ts) :
    Settled ws (Rust.dropVisibility ts) := by
  cases ts with
  | nil => exact hs
  | cons t ts =>
    simp only [Rust.dropVisibility]
    split
    · rename_i hpub
      have htail : Settled ws ts := h.settled_tail (by rw [hpub]; rfl)
      split
      · rename_i hparen
        cases ts with
        | nil => cases hparen
        | cons s ts =>
          obtain ⟨q, us, rfl, hrest⟩ := h.cons
          rw [headKind_cons] at hparen
          exact hrest.settled_dropUnit (by rw [hparen]; rfl)
            (by rw [hparen]; exact Kind.noConfusion)
      · exact htail
    · exact hs

/-- A token that is expected is the first one. -/
theorem eq_cons_of_expect {eof : Token} {kind : Kind} {place : Place} {p : Parsed Token ts.length}
    (hp : expect eof kind place ts = .ok p) : p.value.kind = kind ∧ ts = p.value :: p.rest := by
  cases ts with
  | nil => cases hp
  | cons t ts =>
    rw [expect] at hp
    split at hp
    · rename_i hkind
      cases hp
      exact ⟨hkind, rfl⟩
    · cases hp

/-- The bracket that closes an attribute stands before what it leaves. -/
theorem exists_rbracket {eof : Token} {a : Parsed Attribute ts.length}
    (ha : attributeBody eof ts = .ok a) : ∃ t, t.kind = .rbracket ∧ t :: a.rest <:+ ts := by
  obtain ⟨args, hargs, ha⟩ := exists_of_bind_ok ha
  obtain ⟨closing, hclosing, ha⟩ := exists_of_bind_ok ha
  cases ha
  obtain ⟨hkind, hrest⟩ := eq_cons_of_expect hclosing
  refine ⟨closing.value, hkind, hrest ▸ (Walk.passes_skipTo_bracket _).suffix.trans ?_⟩
  exact ((Walk.follows_attributeArguments _).suffix hargs).trans (Walk.passes_skipPath ts).suffix

/-- A preamble ends with a line of documentation or a bracket, so it ends no item. -/
theorem Sealed.rest_preamble_ne_nil {eof : Token} {p : Parsed Preamble (ts.length + 1)}
    (h : Sealed ts) (hts : ts ≠ []) (hp : preamble eof ts = .ok p) : p.rest ≠ [] := by
  induction ts using preamble.induct with
  | case1 => exact absurd rfl hts
  | case2 t ts hkind ih =>
    rw [preamble, if_pos hkind] at hp
    obtain ⟨more, hmore, hp⟩ := exists_of_bind_ok hp
    cases hp
    refine ih (p := more) (h.mono (List.suffix_cons t ts)) ?_ hmore
    rintro rfl
    have hends := h.ends (List.suffix_refl _)
    rw [hkind] at hends
    cases hends
  | case3 t ts hkind hattribute ih =>
    rw [preamble, if_neg hkind, if_pos hattribute] at hp
    obtain ⟨a, ha, hp⟩ := exists_of_bind_ok hp
    obtain ⟨more, hmore, hp⟩ := exists_of_bind_ok hp
    cases hp
    obtain ⟨closing, hclosing, hsuffix⟩ := exists_rbracket ha
    have hsuffix : closing :: a.rest <:+ t :: ts :=
      hsuffix.trans ((List.drop_suffix 1 ts).trans (List.suffix_cons t ts))
    refine ih a (p := more) (h.mono ((List.suffix_cons _ _).trans hsuffix)) (fun hnil => ?_) hmore
    rw [hnil] at hsuffix
    have hends := h.ends hsuffix
    rw [hclosing] at hends
    cases hends
  | case4 t ts hkind hattribute =>
    rw [preamble, if_neg hkind, if_neg hattribute] at hp
    cases hp
    exact hts

/-- Behind what stands in front of an item the next token is known. -/
theorem Continues.settled_preamble {eof : Token} {p : Parsed Preamble (ts.length + 1)}
    (h : Continues ws ts us) (hts : ts ≠ []) (hp : preamble eof ts = .ok p) :
    Settled ws p.rest :=
  h.closed.symm.imp_left fun hsealed => hsealed.rest_preamble_ne_nil hts hp

/-- A skipped item ends at the same place, or it ends with the tokens and takes a semicolon that
follows them along. -/
theorem Continues.dropItem (h : Continues ws ts us) (hs : Settled ws ts) :
    Continues ws (Rust.dropItem ts) (Rust.dropItem us) ∨
      Rust.dropItem ts = [] ∧ Rust.dropItem us = Rust.dropIf .semicolon ws := by
  fun_induction Rust.dropItem ts generalizing us with
  | case1 =>
    obtain ⟨rfl, rfl⟩ := h.eq_nil hs
    rw [Rust.dropItem]
    exact .inl h
  | case2 t ts hkind =>
    obtain ⟨q, us, rfl, htail⟩ := h.cons
    rw [Rust.dropItem, if_pos hkind]
    exact .inl htail
  | case3 t ts hsemicolon hkind =>
    have hunit := h.dropUnit hs
    obtain ⟨q, us, rfl, -⟩ := h.cons
    rw [Rust.dropItem, if_neg hsemicolon, if_pos hkind]
    by_cases hnil : Rust.dropUnit (t :: ts) = []
    · rw [hnil] at hunit ⊢
      exact .inr ⟨rfl, congrArg (Rust.dropIf .semicolon) hunit.eq_of_nil⟩
    · exact .inl (hunit.dropIf (.inl hnil) .semicolon)
  | case4 t ts hsemicolon hbrace hcloses =>
    obtain ⟨q, us, rfl, htail⟩ := h.cons
    rw [Rust.dropItem, if_neg hsemicolon, if_neg hbrace, if_pos hcloses]
    exact .inl htail
  | case5 t ts hsemicolon hbrace hcloses ih =>
    have hends : t.kind.endsItem = false := by
      revert hsemicolon hcloses
      cases t.kind <;> simp [Kind.endsItem, Kind.closes]
    have hunit := ih (h.dropUnit hs) (h.settled_dropUnit hends hbrace)
    obtain ⟨q, us, rfl, -⟩ := h.cons
    rwa [Rust.dropItem, if_neg hsemicolon, if_neg hbrace, if_neg hcloses]

/-- Whether tokens start a preamble, a visibility or an item that is read. -/
def startsDeclaration : List Token → Bool
  | [] => false
  | t :: ts =>
    match t.kind with
    | .doc | .hash | .pub | .struct | .enum | .type => true
    | .const => headKind ts == .identifier
    | _ => false

/-- What starts no declaration is no item. -/
theorem parseItem_of_not_startsDeclaration {t : Token} {ts : List Token}
    (h : startsDeclaration (t :: ts) = false) (eof : Token) (p : Preamble) :
    parseItem eof p t ts = .ok none := by
  revert h
  cases hkind : t.kind <;> simp +contextual [startsDeclaration, parseItem, hkind]

/-- Where no declaration starts, an item is skipped. -/
theorem parseItems_dropItem {t : Token} {ts : List Token}
    (h : startsDeclaration (t :: ts) = false) (eof : Token) :
    parseItems eof (dropItem (t :: ts)) = parseItems eof (t :: ts) := by
  have hkind : t.kind ∉ [Kind.doc, .hash, .pub] := by
    revert h
    cases hkind : t.kind <;> simp [startsDeclaration, hkind]
  simp only [List.mem_cons, List.not_mem_nil, or_false, not_or] at hkind
  obtain ⟨hdoc, hhash, hpub⟩ := hkind
  have hpreamble : preamble eof (t :: ts) = .ok (.before ⟨[], []⟩ (t :: ts)) :=
    preamble_of_none hdoc fun h => absurd h hhash
  rw [parseItems_of_preamble (fun h => hhash h.1) hpreamble, Parsed.rest_before, dropVisibility,
    if_neg hpub]
  simp only [parseItem_of_not_startsDeclaration h, bind, Except.bind]

/-- A semicolon is an item that is skipped. -/
theorem parseItems_dropIf_semicolon (eof : Token) (ts : List Token) :
    parseItems eof (dropIf .semicolon ts) = parseItems eof ts := by
  cases ts with
  | nil => rfl
  | cons t ts =>
    rw [dropIf]
    split
    · rename_i hkind
      have hstart : startsDeclaration (t :: ts) = false := by simp [startsDeclaration, hkind]
      rw [← parseItems_dropItem hstart, dropItem, if_pos hkind]
    · rfl

/-- **The items of tokens with more behind them are their own and then those of the rest.** -/
theorem parseItems_continues {eof : Token} (eof' : Token) {items : List Item}
    (h : Continues ws ts us) (hitems : parseItems eof ts = .ok items) :
    parseItems eof' us = (parseItems eof' ws).map (items ++ ·) := by
  induction ts using parseItems.induct generalizing us items with
  | case1 =>
    rw [parseItems] at hitems
    cases hitems
    rw [h.eq_of_nil]
    cases parseItems eof' ws <;> rfl
  | case2 t ts hkind ih =>
    rw [parseItems, if_pos hkind] at hitems
    obtain ⟨q, us, rfl, htail⟩ := h.cons
    have hbang : Settled ws ts := h.settled_tail (by rw [hkind.1]; rfl)
    have hrest : Settled ws (ts.drop 1) := by
      cases ts with
      | nil => cases hkind.2
      | cons s ts => exact htail.settled_tail (by rw [← headKind_cons s ts, hkind.2]; rfl)
    rw [← htail.headKind hbang] at hkind
    rw [parseItems, if_pos hkind]
    exact ih ((htail.drop_one hbang).dropUnit hrest) hitems
  | case3 t ts hkind ihitem ihskip =>
    obtain ⟨docs, hdocs, -⟩ := exists_of_bind_ok (by rwa [parseItems, if_neg hkind] at hitems)
    have hsettled := h.settled_preamble (List.cons_ne_nil t ts) hdocs
    obtain ⟨docs', hdocs', hvalue, hleft⟩ := repeats_preamble eof' h hdocs hsettled
    have hvisible := hleft.settled_dropVisibility hsettled
    have hbody := hleft.dropVisibility hsettled
    obtain ⟨q, us, rfl, htail⟩ := h.cons
    -- a hash ends no item, so the token behind it is known
    have hkind' : ¬ (t.kind = .hash ∧ headKind us = .bang) := fun hc =>
      hkind ⟨hc.1, (htail.headKind (h.settled_tail (by rw [hc.1]; rfl))).symm.trans hc.2⟩
    rw [parseItems_of_preamble hkind hdocs] at hitems
    rw [parseItems_of_preamble (t := ⟨t.kind, t.text, q⟩) hkind' hdocs', hvalue]
    cases hrest : dropVisibility docs.rest with
    | nil =>
      rw [hrest] at hbody hvisible hitems
      obtain ⟨hnil, rfl⟩ := hbody.eq_nil hvisible
      cases hitems
      rw [hnil, parseItems]
      rfl
    | cons u rest =>
      rw [hrest] at hbody hitems
      obtain ⟨r, rest', hrest', hbehind⟩ := hbody.cons
      have hidentifier : u.kind = .const → headKind rest' = headKind rest := fun hconst =>
        hbehind.headKind (hbody.settled_tail (by rw [hconst]; rfl))
      obtain ⟨found, hfound, hitems⟩ := exists_of_bind_ok hitems
      rw [hrest']
      cases found with
      | none =>
        simp only [parseItem_eq_none eof' r hidentifier hfound, bind, Except.bind]
        -- a body that ends the tokens takes a semicolon along that follows them
        rcases hbody.dropItem (settled_cons u rest) with hend | ⟨hend, hend'⟩
        · rw [hrest'] at hend
          exact ihskip docs u rest hrest hend hitems
        · rw [hend, parseItems] at hitems
          cases hitems
          rw [hrest'] at hend'
          rw [hend', parseItems_dropIf_semicolon]
          cases parseItems eof' ws <;> rfl
      | some item =>
        obtain ⟨item', hitem', hvalue', hend⟩ := repeats_parseItem eof' r hbehind hidentifier hfound
        simp only [hitem', bind, Except.bind]
        cases hmore : parseItems eof item.rest with
        | error e =>
          simp only [hmore] at hitems
          cases hitems
        | ok more =>
          simp only [hmore] at hitems
          cases hitems
          rw [ihitem docs u rest hrest item hend hmore, hvalue']
          cases parseItems eof' ws <;> rfl

end Tokens

end Rust
end Ferrotype

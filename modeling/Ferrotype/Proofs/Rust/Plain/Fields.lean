/-
# Fields of structs

A field is a type behind its preamble, its visibility and, in braces, its name. Fields with commas
behind them are read one after the other, whatever follows (`outcome_leading`), so a field depends
on those before it by its place alone, and a list of fields is read up to the bracket that closes it
(`outcome_fieldList`).

Behind `pub` a type must not start with a parenthesis: it would be taken for the scope of the
visibility.
-/

import Ferrotype.Proofs.Rust.Plain.Header

namespace Ferrotype
namespace Rust

/-! ## Where types start -/

/-- Some kinds of tokens that start no type. -/
def noTypeKinds : List Kind := [.doc, .hash, .pub, .comma, .rparen, .rbrace, .eof]

/-- What starts no type is an error that names it. -/
theorem parseType_of_mem_noTypeKinds (eof : Token) {t : Token} (h : t.kind ∈ noTypeKinds)
    (ts : List Token) : parseType eof (t :: ts) = .error (.expectedType t) := by
  have hkinds : t.kind ∉ [Kind.ampersand, .lparen, .lbracket, .bang, .colonColon] ∧
      startsVerbatim t = false ∧ isSegment t.kind = false := by
    revert h
    cases hkind : t.kind <;> simp [noTypeKinds, startsVerbatim, isSegment, hkind]
  simp only [List.mem_cons, List.not_mem_nil, or_false, not_or] at hkinds
  obtain ⟨⟨hreference, hparen, hbracket, hbang, hcolons⟩, hverbatim, hsegment⟩ := hkinds
  have hpath : path (t :: ts) = ([], t :: ts) := by
    rw [path, dropIf, if_neg hcolons]
    cases ts <;> simp [segments, hsegment]
  rw [parseType, if_neg hreference, if_neg hparen, if_neg hbracket, if_neg hbang,
    dif_neg (by simp [hverbatim]), dif_pos (by rw [hpath]), hpath]
  rfl

variable {eof : Token}

/-- A type is read in front of what can follow it. -/
theorem IsType.outcome_eq {ts ws : List Token} {value : TypeExpr} (h : IsType eof ts value)
    (hws : headKind ws ∈ typeFollowers) : outcome (parseType eof (ts ++ ws)) = .ok (value, ws) :=
  outcome_eq_ok (h ws hws)

/-- A type starts with a token of its own. -/
theorem IsType.exists_cons {ts : List Token} {value : TypeExpr} (h : IsType eof ts value) :
    ∃ t us, ts = t :: us ∧ t.kind ∉ noTypeKinds := by
  have hread : outcome (parseType eof (ts ++ [])) = .ok (value, []) := h.outcome_eq (by decide)
  rw [List.append_nil] at hread
  cases ts with
  | nil =>
    rw [parseType] at hread
    cases hread
  | cons t us =>
    refine ⟨t, us, rfl, fun hkind => ?_⟩
    rw [parseType_of_mem_noTypeKinds eof hkind] at hread
    cases hread

/-! ## The two forms of fields -/

namespace StructShape

/-- The bracket in front of the fields of a struct. -/
def opener : StructShape → Kind
  | named => .lbrace
  | tuple | unit => .lparen

/-- The bracket behind the fields of a struct. -/
def closer : StructShape → Kind
  | named => .rbrace
  | tuple | unit => .rparen

/-- The place that an error behind a field names. -/
def separator : StructShape → Field → Place
  | named => fun field => .afterField (field.name.getD "")
  | tuple | unit => fun _ => .betweenTupleFields

/-- A field of a struct. -/
def field (eof : Token) : StructShape → Preamble → (ts : List Token) →
    Result (Parsed Field ts.length)
  | named => namedField eof
  | tuple | unit => tupleField eof

/-- The fields of a struct, behind the opening bracket. -/
def fields (eof : Token) (shape : StructShape) :
    (ts : List Token) → Result (Parsed (List Field) ts.length) :=
  members eof shape.closer shape.separator (shape.field eof)

/-- Fields between braces have names. -/
theorem fields_named (eof : Token) : fields eof named = namedFields eof := rfl

/-- Fields between parentheses have none. -/
theorem fields_tuple (eof : Token) : fields eof tuple = tupleFields eof := rfl

end StructShape

/-! ## One field -/

/-- The tokens of a field behind its preamble. -/
inductive FieldTokens (eof : Token) (p : Preamble) : StructShape → List Token → Field → Prop
  | named {vs ts : List Token} {v : Visibility} {name colon : Token} {type : TypeExpr}
      (hv : v.isWritable) (hvs : piecesOf vs = v.pieces) (hname : name.kind = .identifier)
      (hcolon : colon.kind = .colon) (htype : IsType eof ts type) :
      FieldTokens eof p .named (vs ++ name :: colon :: ts) ⟨some name.text, type, p⟩
  | tuple {vs ts : List Token} {v : Visibility} {type : TypeExpr} (hv : v.isWritable)
      (hvs : piecesOf vs = v.pieces) (htype : IsType eof ts type)
      (hscope : v = .everywhere → headKind ts ≠ .lparen) :
      FieldTokens eof p .tuple (vs ++ ts) ⟨none, type, p⟩

/-- What may start a type is none of the kinds that do not. -/
theorem ne_of_notMem_noTypeKinds {kind : Kind} (h : kind ∉ noTypeKinds) {kind' : Kind}
    (hkind' : kind' ∈ noTypeKinds) : kind ≠ kind' := by
  rintro rfl
  exact h hkind'

namespace FieldTokens

variable {p : Preamble} {shape : StructShape} {ts ws : List Token} {field : Field}

/-- A field is read in front of a comma or the bracket that closes the list. -/
theorem outcome_eq (h : FieldTokens eof p shape ts field)
    (hws : headKind ws = .comma ∨ headKind ws = shape.closer) :
    outcome (shape.field eof p (ts ++ ws)) = .ok (field, ws) := by
  have hfollows : headKind ws ∈ typeFollowers := by
    rcases hws with h | h <;> rw [h]
    · decide
    · cases shape <;> decide
  cases h with
  | @named vs ts v name colon type hv hvs hname hcolon htype =>
    have hvisible : dropVisibility (vs ++ (name :: colon :: (ts ++ ws))) =
        name :: colon :: (ts ++ ws) :=
      dropVisibility_append hv hvs (by simp [hname]) fun _ => by simp [hname]
    rw [List.append_assoc, List.cons_append, List.cons_append, StructShape.field,
      outcome_namedField, hvisible, outcome_expect eof hname]
    show outcome (expect eof .colon (.afterField name.text) (colon :: (ts ++ ws))) >>= _ = _
    rw [outcome_expect eof hcolon]
    show outcome (parseType eof (ts ++ ws)) >>= _ = _
    rw [htype.outcome_eq hfollows]
    rfl
  | @tuple vs ts v type hv hvs htype hscope =>
    obtain ⟨t, us, rfl, ht⟩ := htype.exists_cons
    have hvisible : dropVisibility (vs ++ (t :: us ++ ws)) = t :: us ++ ws :=
      dropVisibility_append hv hvs (ne_of_notMem_noTypeKinds ht (by decide)) hscope
    rw [List.append_assoc, StructShape.field, outcome_tupleField, hvisible,
      htype.outcome_eq hfollows]
    rfl

/-- A field starts with a token that is no part of a preamble and closes no list. -/
theorem headKind_ne_closer (h : FieldTokens eof p shape ts field) (ws : List Token) :
    ∀ kind ∈ [Kind.doc, .hash, shape.closer, .eof], headKind (ts ++ ws) ≠ kind := by
  intro kind hkind
  have hkind' : kind ≠ .pub ∧ kind ≠ .identifier ∧ kind ∈ noTypeKinds := by
    revert hkind
    cases shape <;> cases kind <;> simp [noTypeKinds, StructShape.closer]
  cases h with
  | @named vs ts v name colon type hv hvs hname hcolon htype =>
    rw [List.append_assoc]
    refine headKind_append_visibility hvs hkind'.1 ?_
    rw [List.cons_append, headKind_cons, hname]
    exact hkind'.2.1.symm
  | @tuple vs ts v type hv hvs htype hscope =>
    obtain ⟨t, us, rfl, ht⟩ := htype.exists_cons
    rw [List.append_assoc]
    exact headKind_append_visibility hvs hkind'.1 (ne_of_notMem_noTypeKinds ht hkind'.2.2)

end FieldTokens

/-! ## Lists of fields -/

/-- Fields with commas behind them. -/
inductive Leading (eof : Token) (shape : StructShape) : List Token → List Field → Prop
  | nil : Leading eof shape [] []
  | cons {front ts more : List Token} {comma : Token} {p : Preamble} {field : Field}
      {fields : List Field} (hfront : IsPreamble eof front p)
      (hfield : FieldTokens eof p shape ts field) (hcomma : comma.kind = .comma)
      (hmore : Leading eof shape more fields) :
      Leading eof shape (front ++ (ts ++ comma :: more)) (field :: fields)

/-- The fields of a struct up to the bracket that closes the list. -/
inductive FieldList (eof : Token) (shape : StructShape) : List Token → List Field → Prop
  | closed {ts : List Token} {closing : Token} {fields : List Field}
      (hts : Leading eof shape ts fields) (hclosing : closing.kind = shape.closer) :
      FieldList eof shape (ts ++ [closing]) fields
  | last {ts front us : List Token} {closing : Token} {fields : List Field} {p : Preamble}
      {field : Field} (hts : Leading eof shape ts fields) (hfront : IsPreamble eof front p)
      (hfield : FieldTokens eof p shape us field) (hclosing : closing.kind = shape.closer) :
      FieldList eof shape (ts ++ (front ++ (us ++ [closing]))) (fields ++ [field])

variable {shape : StructShape} {ts ws : List Token}

/-- Behind a preamble a field is read, if one starts there. -/
theorem outcome_fields_of_isPreamble {front : List Token} {p : Preamble}
    (hfront : IsPreamble eof front p)
    (hws : ∀ kind ∈ [Kind.doc, .hash, shape.closer, .eof], headKind ws ≠ kind) :
    outcome (shape.fields eof (front ++ ws)) = outcome (shape.field eof p ws) >>=
      fun (field, rest) => outcome
        (membersBehind eof shape.separator (shape.field eof) shape.closer field rest) := by
  have hdoc : headKind ws ≠ .doc := hws _ (by simp)
  have hhash : headKind ws ≠ .hash := hws _ (by simp)
  have hclose : headKind ws ≠ shape.closer := hws _ (by simp)
  have hhead : headKind (front ++ ws) ≠ shape.closer := by
    rcases hfront.headKind_append hdoc hhash with h | h | rfl
    · rw [h]
      cases shape <;> exact Kind.noConfusion
    · rw [h]
      cases shape <;> exact Kind.noConfusion
    · exact hclose
  obtain ⟨r, hr, rfl, hrest⟩ := hfront ws hdoc hhash
  have hne : front ++ ws ≠ [] := fun hnil =>
    hws .eof (by simp) (by rw [(List.append_eq_nil_iff.1 hnil).2]; rfl)
  rw [StructShape.fields, outcome_members eof _ _ hne hhead hr (by rwa [hrest]), hrest]

/-- **Fields with commas behind them are read, whatever follows.** -/
theorem outcome_leading {fields : List Field} (h : Leading eof shape ts fields)
    (ws : List Token) :
    outcome (shape.fields eof (ts ++ ws)) = (outcome (shape.fields eof ws)).map
      fun (more, rest) => (fields ++ more, rest) := by
  induction h with
  | nil =>
    rw [List.nil_append]
    cases outcome (shape.fields eof ws) <;> rfl
  | @cons front ts more comma p field fields hfront hfield hcomma _ ih =>
    have hread : outcome (shape.field eof p (ts ++ comma :: (more ++ ws))) =
        .ok (field, comma :: (more ++ ws)) := hfield.outcome_eq (.inl hcomma)
    rw [List.append_assoc, List.append_assoc, List.cons_append,
      outcome_fields_of_isPreamble hfront (hfield.headKind_ne_closer _), hread]
    show outcome (membersBehind eof shape.separator (shape.field eof) shape.closer field
      (comma :: (more ++ ws))) = _
    rw [outcome_membersBehind_comma eof _ _ hcomma]
    show (outcome (shape.fields eof (more ++ ws))).map _ = _
    rw [ih]
    cases outcome (shape.fields eof ws) <;> rfl

/-- **A list of fields is read up to the bracket that closes it.** -/
theorem outcome_fieldList {fields : List Field} (h : FieldList eof shape ts fields)
    (ws : List Token) : outcome (shape.fields eof (ts ++ ws)) = .ok (fields, ws) := by
  cases h with
  | @closed ts closing fields hts hclosing =>
    have hend : outcome (shape.fields eof (closing :: ws)) = .ok ([], ws) :=
      outcome_members_closer eof _ _ hclosing ws
    rw [List.append_assoc, List.singleton_append, outcome_leading hts, hend]
    simp [Except.map]
  | @last ts front us closing fields p field hts hfront hfield hclosing =>
    have hcomma : shape.closer ≠ .comma := by cases shape <;> exact Kind.noConfusion
    have hread : outcome (shape.field eof p (us ++ closing :: ws)) = .ok (field, closing :: ws) :=
      hfield.outcome_eq (.inr hclosing)
    rw [List.append_assoc, List.append_assoc, List.append_assoc, List.singleton_append,
      outcome_leading hts, outcome_fields_of_isPreamble hfront (hfield.headKind_ne_closer _), hread]
    show (outcome (membersBehind eof shape.separator (shape.field eof) shape.closer field
      (closing :: ws))).map _ = _
    rw [outcome_membersBehind_closer eof _ _ hclosing hcomma]
    rfl

/-! ## Structs with fields -/

/-- What is left behind the fields of a struct: behind those in parentheses a where clause can stand
and a semicolon has to. -/
def StructShape.dropEnd (eof : Token) (name : String) : StructShape → List Token →
    Result (List Token)
  | named, ts => .ok ts
  | tuple, ts | unit, ts =>
    (outcome (expect eof .semicolon (.afterTupleStruct name) (dropWhere ts))).map (·.2)

section Structs

variable {before : List Token} {items : List Item} {p : Preamble} (h : Front eof before items p)
  {t name opening : Token} (ht : t.kind = .struct) (hname : name.kind = .identifier)
  {gs : List Token} {params : List String} (hgs : Generics gs params) (hshape : shape ≠ .unit)
  (hopening : opening.kind = shape.opener)
include h ht hname hgs hshape hopening

/-- **The fields of a struct decide about it**, and what stands behind them. -/
theorem Front.parseItems_fields {us : List Token} (hus : headKind us ≠ .lt)
    (hwhere : dropWhere us = opening :: ws) :
    parseItems eof (before ++ t :: name :: (gs ++ us)) = (do
      let (fields, rest) ← outcome (shape.fields eof ws)
      let rest ← shape.dropEnd eof name.text rest
      itemsBehind eof items (⟨name.text, params, p, .struct shape fields⟩, rest)) := by
  rw [h.parseItems_struct hname hgs hus ht, hwhere]
  cases shape with
  | named =>
    rw [outcome_structBody_named eof hopening, ← StructShape.fields_named, bind_assoc]
    rfl
  | tuple =>
    rw [outcome_structBody_tuple eof hopening, ← StructShape.fields_tuple, bind_assoc]
    refine congrArg _ (funext fun (fields, rest) => ?_)
    simp only [StructShape.dropEnd]
    cases outcome (expect eof .semicolon (.afterTupleStruct name.text) (dropWhere rest)) <;> rfl
  | unit => exact absurd rfl hshape

/-- A struct whose fields are complete is read with them, and the items behind it follow. -/
theorem Front.parseItems_fieldList {fields : List Field} (hts : FieldList eof shape ts fields)
    (ws : List Token) :
    parseItems eof (before ++ t :: name :: (gs ++ opening :: (ts ++ ws))) = (do
      let rest ← shape.dropEnd eof name.text ws
      itemsBehind eof items (⟨name.text, params, p, .struct shape fields⟩, rest)) := by
  have hkind : opening.kind ≠ .lt ∧ opening.kind ≠ .whereWord := by
    rw [hopening]
    cases shape <;> exact ⟨Kind.noConfusion, Kind.noConfusion⟩
  have hlt : headKind (opening :: (ts ++ ws)) ≠ .lt := hkind.1
  have hwhere : dropWhere (opening :: (ts ++ ws)) = opening :: (ts ++ ws) := if_neg hkind.2
  rw [h.parseItems_fields ht hname hgs hshape hopening hlt hwhere, outcome_fieldList hts]
  rfl

end Structs

end Rust
end Ferrotype

/-
# Spelling declarations

What an item declares is the fields of a struct, the variants of an enum, the type and the value of
a constant, or the target of a type alias. In canonical form each is read back behind the keyword
of the item.
-/

import Ferrotype.Proofs.Rust.Canonical.Expr
import Ferrotype.Proofs.Rust.Canonical.Generics
import Ferrotype.Proofs.Rust.Canonical.Variant

namespace Ferrotype
namespace Rust

open Piece (mark)

/-! ## Spelling -/

namespace Body

/-- The pieces of the fields of a struct, up to its end. -/
def structPieces (shape : StructShape) (fields : List Field) : List Piece :=
  match shape with
  | .named => namedFieldsPieces fields
  | .tuple => tupleFieldsPieces fields ++ [mark .semicolon]
  | .unit => [mark .semicolon]

/-- The pieces of the variants of an enum. -/
def enumPieces (variants : List Variant) : List Piece :=
  mark .lbrace :: (memberPieces Variant.pieces Variant.preamble variants ++ [mark .rbrace])

/-- The pieces of the value of a constant. -/
def valuePieces : Option Expr → List Piece
  | none => []
  | some value => mark .eq :: value.pieces

/-- Whether the fields of a struct have a canonical form. -/
def hasFields (shape : StructShape) (fields : List Field) : Bool :=
  match shape with
  | .named => fields.all Field.isNamed
  | .tuple => fields.all Field.isPositional
  | .unit => fields.isEmpty

/-- Whether what an item declares has a canonical form. -/
def isWritable : Body → Bool
  | struct shape fields => hasFields shape fields
  | enum variants => variants.all Variant.isWritable
  | const type value => type.isWritable && value.all Expr.isWritable
  | typeAlias target => target.isWritable
  | bare => false

end Body

/-! ## Reading declarations -/

section Reading

variable (eof : Token)

/-- Nothing is dropped where no `where` stands. -/
theorem dropWhere_of_headKind {ts : List Token} (h : headKind ts ≠ .whereWord) :
    dropWhere ts = ts := by
  cases ts with
  | nil => rfl
  | cons t ts =>
    rw [headKind_cons] at h
    rw [dropWhere, if_neg h]

/-- The body of a struct is read back, in each of its three shapes. -/
theorem reads_structBody (name : String) {shape : StructShape} {fields : List Field}
    (h : Body.hasFields shape fields) (rest : List Piece) :
    Reads (structBody eof name) (Body.structPieces shape fields ++ rest) (.struct shape fields)
      rest := by
  intro ts hts
  cases shape with
  | named =>
    rw [Body.structPieces, namedFieldsPieces, Piece.enclosed_append] at hts
    obtain ⟨t, us, rfl, hkind, hus⟩ := exists_mark_of_piecesOf hts
    obtain ⟨r, hr, hvalue, hleft⟩ := reads_namedFields eof h rest us hus
    rw [structBody, if_pos hkind, hr]
    refine ⟨_, rfl, ?_, hleft⟩
    rw [Parsed.value_later, Parsed.value_later, Parsed.value_map, hvalue]
  | tuple =>
    rw [Body.structPieces, tupleFieldsPieces, List.append_assoc, List.singleton_append,
      Piece.enclosed_append] at hts
    obtain ⟨t, us, rfl, hkind, hus⟩ := exists_mark_of_piecesOf hts
    obtain ⟨r, hr, hvalue, hleft⟩ := reads_tupleFields eof h (mark .semicolon :: rest) us hus
    have hwhere : piecesOf (dropWhere r.rest) = mark .semicolon :: rest := by
      rw [dropWhere_of_headKind, hleft]
      rw [headKind_of_piecesOf hleft]
      exact Kind.noConfusion
    obtain ⟨closing, hclosing, hend⟩ := expect_of_mark hwhere eof (.afterTupleStruct name)
    rw [structBody, if_neg (kind_ne_of_eq hkind Kind.noConfusion), if_pos hkind, hr]
    simp only [bind, Except.bind, hclosing]
    refine ⟨_, rfl, ?_, hend⟩
    rw [hvalue]
  | unit =>
    rw [Body.hasFields, List.isEmpty_iff] at h
    subst h
    obtain ⟨closing, hclosing, hend⟩ := expect_of_mark hts eof (.afterUnitStruct name)
    obtain ⟨t, us, rfl, hkind, hus⟩ := exists_mark_of_piecesOf hts
    rw [structBody, if_neg (kind_ne_of_eq hkind Kind.noConfusion),
      if_neg (kind_ne_of_eq hkind Kind.noConfusion), hclosing]
    exact ⟨_, rfl, rfl, hend⟩

/-- The body of a struct starts neither with parameters nor with a clause. -/
theorem headKind_structPieces (shape : StructShape) (fields : List Field) (rest : List Piece) :
    Piece.headKind (Body.structPieces shape fields ++ rest) ≠ .lt ∧
      Piece.headKind (Body.structPieces shape fields ++ rest) ≠ .whereWord := by
  cases shape <;> exact ⟨Kind.noConfusion, Kind.noConfusion⟩

/-- Structs are read back behind their keyword. -/
theorem reads_struct (p : Preamble) (name : String) (params : List String) {shape : StructShape}
    {fields : List Field} (h : Body.hasFields shape fields) (rest : List Piece) :
    Reads (parseStruct eof p) (Piece.name name ::
      (genericsPieces params ++ (Body.structPieces shape fields ++ rest)))
      ⟨name, params, p, .struct shape fields⟩ rest := by
  intro ts hts
  obtain ⟨hlt, hwhere⟩ := headKind_structPieces shape fields rest
  obtain ⟨n, hn, htext, hleft⟩ := expect_of_name hts eof .structName
  obtain ⟨g, hg, hparams, hleft⟩ := reads_generics eof params hlt n.rest hleft
  have hdrop : piecesOf (dropWhere g.rest) = Body.structPieces shape fields ++ rest := by
    rw [dropWhere_of_headKind, hleft]
    rwa [headKind_of_piecesOf hleft]
  obtain ⟨body, hbody, hvalue, hend⟩ := reads_structBody eof n.value.text h rest _ hdrop
  rw [parseStruct, hn]
  simp only [bind, Except.bind, hg, hbody]
  refine ⟨_, rfl, ?_, hend⟩
  rw [htext, hparams, hvalue]

/-- An enum is read if its variants are. -/
theorem reads_enumOf (p : Preamble) (name : String) (params : List String) {ps rest : List Piece}
    {variants : List Variant}
    (h : Reads (members eof .rbrace (fun v : Variant => .afterVariant v.name) (variant eof name)) ps
      variants rest) :
    Reads (parseEnum eof p) (Piece.name name :: (genericsPieces params ++ mark .lbrace :: ps))
      ⟨name, params, p, .enum variants⟩ rest := by
  intro ts hts
  obtain ⟨n, hn, htext, hleft⟩ := expect_of_name hts eof .enumName
  obtain ⟨g, hg, hparams, hleft⟩ := reads_generics eof params Kind.noConfusion n.rest hleft
  have hdrop : piecesOf (dropWhere g.rest) = mark .lbrace :: ps := by
    rw [dropWhere_of_headKind, hleft]
    rw [headKind_of_piecesOf hleft]
    exact Kind.noConfusion
  obtain ⟨o, ho, hleft⟩ := expect_of_mark hdrop eof (.openingEnum n.value.text)
  rw [← htext] at h
  obtain ⟨vs, hvs, hvalue, hend⟩ := h o.rest hleft
  rw [parseEnum, hn]
  simp only [bind, Except.bind, hg, ho, hvs]
  refine ⟨_, rfl, ?_, hend⟩
  rw [htext, hparams, hvalue]

/-- Enums are read back behind their keyword. -/
theorem reads_enum (p : Preamble) (name : String) (params : List String) {variants : List Variant}
    (h : variants.all Variant.isWritable) (rest : List Piece) :
    Reads (parseEnum eof p) (Piece.name name ::
      (genericsPieces params ++ (Body.enumPieces variants ++ rest)))
      ⟨name, params, p, .enum variants⟩ rest := by
  have hpieces : Body.enumPieces variants ++ rest = mark .lbrace ::
      (memberPieces Variant.pieces Variant.preamble variants ++ mark .rbrace :: rest) :=
    Piece.enclosed_append _ _ _ _
  rw [hpieces]
  exact reads_enumOf eof p name params (reads_members eof _ rfl
    (fun v hv => memberRead_variant eof name (List.all_eq_true.1 h v hv)) rest)

/-- A value is read behind its equals sign up to the semicolon. -/
theorem reads_initializer {ps rest : List Piece} {e : Expr}
    (h : Reads (parseExpr eof) ps e (mark .semicolon :: rest)) :
    Reads (constValue eof) (mark .eq :: ps) (some e) (mark .semicolon :: rest) := by
  intro ts hts
  obtain ⟨t, us, rfl, hkind, hus⟩ := exists_mark_of_piecesOf hts
  obtain ⟨r, hr, hvalue, hleft⟩ := h us hus
  have hsemicolon : headKind r.rest = .semicolon := headKind_of_piecesOf hleft
  rw [constValue, if_pos hkind, initializer, hr]
  simp only [bind, Except.bind, if_pos hsemicolon]
  refine ⟨_, rfl, ?_, hleft⟩
  rw [Parsed.value_later, Parsed.value_map, hvalue]

/-- The value of a constant is read back, also if there is none. -/
theorem reads_constValue {value : Option Expr} (h : value.all Expr.isWritable)
    (rest : List Piece) :
    Reads (constValue eof) (Body.valuePieces value ++ mark .semicolon :: rest) value
      (mark .semicolon :: rest) := by
  cases value with
  | none =>
    intro ts hts
    obtain ⟨t, us, rfl, hkind, hus⟩ := exists_mark_of_piecesOf hts
    rw [constValue, if_neg (kind_ne_of_eq hkind Kind.noConfusion)]
    exact ⟨_, rfl, rfl, hts⟩
  | some e => exact reads_initializer eof (Expr.isRead_of_isWritable eof e h _)

/-- A constant is read if its type and its value are. -/
theorem reads_const (p : Preamble) (name : String) {ps qs rest : List Piece} {type : TypeExpr}
    {value : Option Expr} (htype : Reads (parseType eof) ps type qs)
    (hvalue : Reads (constValue eof) qs value (mark .semicolon :: rest)) :
    Reads (parseConst eof p) (Piece.name name :: mark .colon :: ps)
      ⟨name, [], p, .const type value⟩ rest := by
  intro ts hts
  obtain ⟨n, hn, htext, hleft⟩ := expect_of_name hts eof .constName
  obtain ⟨c, hc, hleft⟩ := expect_of_mark hleft eof (.afterConst n.value.text)
  obtain ⟨t, ht, hread, hleft⟩ := htype c.rest hleft
  obtain ⟨v, hv, hexpr, hleft⟩ := hvalue t.rest hleft
  obtain ⟨s, hs, hend⟩ := expect_of_mark hleft eof (.afterConst n.value.text)
  rw [parseConst, hn]
  simp only [bind, Except.bind, hc, ht, hv, hs]
  refine ⟨_, rfl, ?_, hend⟩
  rw [htext, hread, hexpr]

/-- Constants are read back behind their keyword. -/
theorem reads_writableConst (p : Preamble) (name : String) {type : TypeExpr} {value : Option Expr}
    (htype : type.isWritable) (hvalue : value.all Expr.isWritable) (rest : List Piece) :
    Reads (parseConst eof p) (Piece.name name :: mark .colon ::
      (type.pieces ++ (Body.valuePieces value ++ mark .semicolon :: rest)))
      ⟨name, [], p, .const type value⟩ rest := by
  have hends : endsType (Body.valuePieces value ++ mark .semicolon :: rest) := by
    cases value <;> exact ⟨Kind.noConfusion, Kind.noConfusion⟩
  exact reads_const eof p name (TypeExpr.isRead_of_isWritable eof type htype _ hends)
    (reads_constValue eof hvalue rest)

/-- Type aliases are read back behind their keyword. -/
theorem reads_alias (p : Preamble) (name : String) (params : List String) {target : TypeExpr}
    (h : target.isWritable) (rest : List Piece) :
    Reads (parseAlias eof p) (Piece.name name :: (genericsPieces params ++
      mark .eq :: (target.pieces ++ mark .semicolon :: rest)))
      ⟨name, params, p, .typeAlias target⟩ rest := by
  intro ts hts
  obtain ⟨n, hn, htext, hleft⟩ := expect_of_name hts eof .aliasName
  obtain ⟨g, hg, hparams, hleft⟩ := reads_generics eof params Kind.noConfusion n.rest hleft
  have hdrop : piecesOf (dropWhere g.rest) =
      mark .eq :: (target.pieces ++ mark .semicolon :: rest) := by
    rw [dropWhere_of_headKind, hleft]
    rw [headKind_of_piecesOf hleft]
    exact Kind.noConfusion
  obtain ⟨e, he, hleft⟩ := expect_of_mark hdrop eof (.inAlias n.value.text)
  obtain ⟨t, ht, hread, hleft⟩ := TypeExpr.isRead_of_isWritable eof target h _
    ⟨Kind.noConfusion, Kind.noConfusion⟩ e.rest hleft
  obtain ⟨s, hs, hend⟩ := expect_of_mark hleft eof (.afterAlias n.value.text)
  rw [parseAlias, hn]
  simp only [bind, Except.bind, hg, he, ht, hs]
  refine ⟨_, rfl, ?_, hend⟩
  rw [htext, hparams, hread]

end Reading

/-! ## Declarations are legible -/

/-- The tokens of the body of a struct are legible. -/
theorem Body.legible_structPieces {shape : StructShape} {fields : List Field}
    (h : hasFields shape fields) : ∀ p ∈ structPieces shape fields, p.Legible := by
  cases shape with
  | named => exact legible_namedFieldsPieces h
  | tuple =>
    rw [structPieces, List.forall_mem_append, List.forall_mem_singleton]
    exact ⟨legible_tupleFieldsPieces h, Piece.legible_mark (by decide)⟩
  | unit =>
    rw [structPieces, List.forall_mem_singleton]
    exact Piece.legible_mark (by decide)

/-- The tokens of variants are legible. -/
theorem Body.legible_enumPieces {variants : List Variant} (h : variants.all Variant.isWritable) :
    ∀ p ∈ enumPieces variants, p.Legible := by
  refine Piece.legible_enclosed (by decide) (by decide) (legible_memberPieces fun v hv => ?_)
  have hwritable := List.all_eq_true.1 h v hv
  refine ⟨?_, Variant.legible_pieces hwritable⟩
  rw [Variant.isWritable, Bool.and_eq_true] at hwritable
  exact hwritable.2

/-- The tokens of the value of a constant are legible if its numbers are numerals. -/
theorem Body.legible_valuePieces {value : Option Expr} (h : value.all Expr.isWritable)
    (hnumbers : ∀ e ∈ value, ∀ text ∈ e.numbers, isNumeral text.toList) :
    ∀ p ∈ valuePieces value, p.Legible := by
  cases value with
  | none => exact List.forall_mem_nil _
  | some e =>
    rw [valuePieces, List.forall_mem_cons]
    exact ⟨Piece.legible_mark (by decide), Expr.legible_pieces e h (hnumbers e rfl)⟩

end Rust
end Ferrotype

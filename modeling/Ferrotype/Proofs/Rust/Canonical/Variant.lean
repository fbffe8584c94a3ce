/-
# Spelling variants

In canonical form a variant is a name, its fields in brackets of the kind that its shape asks for,
and its discriminant behind an equals sign. `memberRead_variant` says that it is read back.
-/

import Ferrotype.Proofs.Rust.Canonical.Field
import Ferrotype.Proofs.Rust.Canonical.Numeral

namespace Ferrotype
namespace Rust

open Piece (mark isName)

/-! ## Spelling -/

namespace Variant

/-- The pieces of the fields of a variant. -/
def fieldsPieces (shape : VariantShape) (fields : List Field) : List Piece :=
  match shape with
  | .unit => []
  | .tuple => tupleFieldsPieces fields
  | .named => namedFieldsPieces fields
  | .unstated => []

/-- The pieces of a discriminant. -/
def discriminantPieces : Option String → List Piece
  | none => []
  | some text => [mark .eq, ⟨.number, text⟩]

/-- The pieces of a variant. -/
def pieces (v : Variant) : List Piece :=
  Piece.name v.name :: (fieldsPieces v.shape v.fields ++ discriminantPieces v.discriminant)

/-- Whether the fields of a variant have a canonical form. -/
def hasFields (shape : VariantShape) (fields : List Field) : Bool :=
  match shape with
  | .unit => fields.isEmpty
  | .tuple => fields.all Field.isPositional
  | .named => fields.all Field.isNamed
  | .unstated => false

/-- Whether a variant has a canonical form. -/
def isWritable (v : Variant) : Bool :=
  isName v.name && hasFields v.shape v.fields && v.discriminant.all (isNumeral ·.toList) &&
    v.preamble.isWritable

end Variant

/-! ## Reading variants -/

section Variants

variable (eof : Token)

/-- What opens no fields is left to stand behind a unit variant. -/
theorem reads_variantFields_unit {ps : List Piece} (hbrace : Piece.headKind ps ≠ .lbrace)
    (hparen : Piece.headKind ps ≠ .lparen) : Reads (variantFields eof) ps (.unit, []) ps := by
  intro ts hts
  rw [← headKind_of_piecesOf hts] at hbrace hparen
  cases ts with
  | nil => exact ⟨_, rfl, rfl, hts⟩
  | cons t ts =>
    rw [headKind_cons] at hbrace hparen
    rw [variantFields, if_neg hbrace, if_neg hparen]
    exact ⟨_, rfl, rfl, hts⟩

/-- The fields of a variant are read up to its discriminant or the comma behind it. -/
theorem reads_variantFields {shape : VariantShape} {fields : List Field}
    (h : Variant.hasFields shape fields) {rest : List Piece}
    (hrest : Piece.headKind rest = .comma ∨ Piece.headKind rest = .eq) :
    Reads (variantFields eof) (Variant.fieldsPieces shape fields ++ rest) (shape, fields)
      rest := by
  intro ts hts
  cases shape with
  | unit =>
    rw [Variant.hasFields, List.isEmpty_iff] at h
    subst h
    have hnot {kind : Kind} (hcomma : .comma ≠ kind) (heq : .eq ≠ kind) :
        Piece.headKind rest ≠ kind := by
      rcases hrest with h | h <;> rwa [h]
    exact reads_variantFields_unit eof (hnot Kind.noConfusion Kind.noConfusion)
      (hnot Kind.noConfusion Kind.noConfusion) ts hts
  | tuple =>
    rw [Variant.fieldsPieces, tupleFieldsPieces, Piece.enclosed_append] at hts
    obtain ⟨t, us, rfl, hkind, hus⟩ := exists_mark_of_piecesOf hts
    obtain ⟨r, hr, hvalue, hleft⟩ := reads_tupleFields eof h rest us hus
    rw [variantFields, if_neg (kind_ne_of_eq hkind Kind.noConfusion), if_pos hkind, hr]
    refine ⟨_, rfl, ?_, hleft⟩
    rw [Parsed.value_later, Parsed.value_later, Parsed.value_map, hvalue]
  | named =>
    rw [Variant.fieldsPieces, namedFieldsPieces, Piece.enclosed_append] at hts
    obtain ⟨t, us, rfl, hkind, hus⟩ := exists_mark_of_piecesOf hts
    obtain ⟨r, hr, hvalue, hleft⟩ := reads_namedFields eof h rest us hus
    rw [variantFields, if_pos hkind, hr]
    refine ⟨_, rfl, ?_, hleft⟩
    rw [Parsed.value_later, Parsed.value_later, Parsed.value_map, hvalue]
  | unstated => cases h

/-- One token has its own text. -/
theorem textOf_singleton (t : Token) : textOf [t] = t.text := by
  simp [textOf, joinTokens, appendToken]

/-- A numeral behind an equals sign is the discriminant. -/
theorem discriminant_of_piecesOf {d : Option String} {ts : List Token} {rest : List Piece}
    (hts : piecesOf ts = Variant.discriminantPieces d ++ mark .comma :: rest) :
    (discriminant ts).1 = d ∧ piecesOf (discriminant ts).2 = mark .comma :: rest := by
  cases d with
  | none =>
    obtain ⟨t, us, rfl, hkind, hus⟩ := exists_mark_of_piecesOf hts
    rw [discriminant, if_neg (kind_ne_of_eq hkind Kind.noConfusion)]
    exact ⟨rfl, hts⟩
  | some text =>
    obtain ⟨t, us, rfl, hkind, hus⟩ := exists_mark_of_piecesOf hts
    obtain ⟨n, vs, rfl, hn, htext, hvs⟩ := exists_cons_of_piecesOf hus
    obtain ⟨c, ws, rfl, hc, hws⟩ := exists_mark_of_piecesOf hvs
    have hspan : rawSpan endsDiscriminant 0 (n :: c :: ws) = ([n], c :: ws) := by
      simp [rawSpan, hn, hc, endsDiscriminant, Kind.opens, Kind.closes]
    rw [discriminant, if_pos hkind, hspan]
    refine ⟨?_, hvs⟩
    rw [textOf_singleton, htext]

/-- **A variant in canonical form is read back.** -/
theorem memberRead_variant (enumName : String) {v : Variant} (h : v.isWritable) :
    MemberRead (variant eof enumName) Variant.pieces Variant.preamble v := by
  obtain ⟨name, shape, fields, d, preamble⟩ := v
  simp only [Variant.isWritable, Bool.and_eq_true] at h
  obtain ⟨⟨⟨hname, hfields⟩, -⟩, hpreamble⟩ := h
  refine ⟨hpreamble, rfl, fun rest ts hts => ?_⟩
  have hhead : Piece.headKind (Variant.discriminantPieces d ++ mark .comma :: rest) = .comma ∨
      Piece.headKind (Variant.discriminantPieces d ++ mark .comma :: rest) = .eq := by
    cases d with
    | none => exact .inl rfl
    | some text => exact .inr rfl
  rw [Variant.pieces, List.cons_append, List.append_assoc] at hts
  obtain ⟨n, hn, htext, hleft⟩ := expect_of_name hts eof (.variantOf enumName)
  obtain ⟨r, hr, hvalue, hrest⟩ := reads_variantFields eof hfields hhead n.rest hleft
  obtain ⟨hd, hend⟩ := discriminant_of_piecesOf hrest
  rw [variant, hn]
  simp only [bind, Except.bind, hr]
  refine ⟨_, rfl, ?_, hend⟩
  rw [htext, hvalue, hd]

end Variants

/-- The tokens of a variant are legible. -/
theorem Variant.legible_pieces {v : Variant} (h : v.isWritable) : ∀ p ∈ v.pieces, p.Legible := by
  obtain ⟨name, shape, fields, d, preamble⟩ := v
  simp only [Variant.isWritable, Bool.and_eq_true] at h
  obtain ⟨⟨⟨hname, hfields⟩, hd⟩, -⟩ := h
  rw [Variant.pieces, List.forall_mem_cons, List.forall_mem_append]
  refine ⟨Piece.legible_name hname, ?_, ?_⟩
  · cases shape with
    | unit => exact List.forall_mem_nil _
    | tuple => exact legible_tupleFieldsPieces hfields
    | named => exact legible_namedFieldsPieces hfields
    | unstated => cases hfields
  · cases d with
    | none => exact List.forall_mem_nil _
    | some text =>
      rw [discriminantPieces, List.forall_mem_cons, List.forall_mem_singleton]
      exact ⟨Piece.legible_mark (by decide), Piece.legible_of_isNumeral hd⟩

end Rust
end Ferrotype

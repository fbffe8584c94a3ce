/-
# Spelling items

In canonical form an item is its preamble, a keyword, a name, and what the item asks for. A source
in canonical form is the spelling of the pieces of its items.

`parse_canonicalSource` says when such a source is read back: if and only if each number in the
value of a constant is a numeral. Another number is cut into several tokens, which no literal stands
for.
-/

import Ferrotype.Proofs.Rust.Canonical.Declaration
import Ferrotype.Proofs.Rust.Plain.Visibility

namespace Ferrotype
namespace Rust

open Piece (mark isName)

/-! ## Spelling -/

namespace Item

/-- The pieces of an item behind its preamble. -/
def declarationPieces (item : Item) : List Piece :=
  match item.body with
  | .struct shape fields =>
    mark .struct :: Piece.name item.name ::
      (genericsPieces item.generics ++ Body.structPieces shape fields)
  | .enum variants =>
    mark .enum :: Piece.name item.name ::
      (genericsPieces item.generics ++ Body.enumPieces variants)
  | .const type value =>
    mark .const :: Piece.name item.name :: mark .colon ::
      (type.pieces ++ (Body.valuePieces value ++ [mark .semicolon]))
  | .typeAlias target =>
    mark .type :: Piece.name item.name ::
      (genericsPieces item.generics ++ mark .eq :: (target.pieces ++ [mark .semicolon]))
  | .bare => []

/-- The pieces of an item. -/
def pieces (item : Item) : List Piece := item.preamble.pieces ++ item.declarationPieces

/-- Whether the type parameters of an item have a canonical form. A constant has none. -/
def hasGenerics (item : Item) : Bool :=
  match item.body with
  | .const .. => item.generics.isEmpty
  | _ => item.generics.all isName

/-- Whether an item has a canonical form. The numbers in the value of a constant can be any texts
here. -/
def isWritable (item : Item) : Bool :=
  isName item.name && item.hasGenerics && item.preamble.isWritable && item.body.isWritable

end Item

/-- The source of items in canonical form. -/
def canonicalSource (items : List Item) : String :=
  String.ofList (Piece.spell (items.flatMap Item.pieces))

/-! ## Reading items -/

section Reading

variable (eof : Token)

/-- Behind its preamble an item is read in full. -/
theorem readsItem {item : Item} (h : item.isWritable) (rest : List Piece) :
    ReadsItem eof item.preamble (item.declarationPieces ++ rest) item rest := by
  intro ts hts
  obtain ⟨name, params, p, body⟩ := item
  simp only [Item.isWritable, Bool.and_eq_true] at h
  obtain ⟨⟨⟨-, hparams⟩, -⟩, hbody⟩ := h
  cases body with
  | struct shape fields =>
    simp only [Item.declarationPieces, List.cons_append, List.append_assoc] at hts
    obtain ⟨t, us, rfl, hkind, hus⟩ := exists_mark_of_piecesOf hts
    obtain ⟨r, hr, hvalue, hleft⟩ := reads_struct eof p name params hbody rest us hus
    refine ⟨t, us, r, rfl, kind_ne_of_eq hkind Kind.noConfusion,
      kind_ne_of_eq hkind Kind.noConfusion, ?_, hvalue, hleft⟩
    rw [parseItem, if_pos hkind, hr]
    rfl
  | enum variants =>
    simp only [Item.declarationPieces, List.cons_append, List.append_assoc] at hts
    obtain ⟨t, us, rfl, hkind, hus⟩ := exists_mark_of_piecesOf hts
    obtain ⟨r, hr, hvalue, hleft⟩ := reads_enum eof p name params hbody rest us hus
    refine ⟨t, us, r, rfl, kind_ne_of_eq hkind Kind.noConfusion,
      kind_ne_of_eq hkind Kind.noConfusion, ?_, hvalue, hleft⟩
    rw [parseItem, if_neg (kind_ne_of_eq hkind Kind.noConfusion), if_pos hkind, hr]
    rfl
  | const type value =>
    rw [Body.isWritable, Bool.and_eq_true] at hbody
    simp only [Item.hasGenerics, List.isEmpty_iff] at hparams
    subst hparams
    simp only [Item.declarationPieces, List.cons_append, List.append_assoc, List.nil_append] at hts
    obtain ⟨t, us, rfl, hkind, hus⟩ := exists_mark_of_piecesOf hts
    obtain ⟨r, hr, hvalue, hleft⟩ := reads_writableConst eof p name hbody.1 hbody.2 rest us hus
    refine ⟨t, us, r, rfl, kind_ne_of_eq hkind Kind.noConfusion,
      kind_ne_of_eq hkind Kind.noConfusion, ?_, hvalue, hleft⟩
    have hhead : headKind us = .identifier := headKind_of_piecesOf hus
    rw [parseItem, if_neg (kind_ne_of_eq hkind Kind.noConfusion),
      if_neg (kind_ne_of_eq hkind Kind.noConfusion), if_pos ⟨hkind, hhead⟩, hr]
    rfl
  | typeAlias target =>
    simp only [Item.declarationPieces, List.cons_append, List.append_assoc, List.nil_append] at hts
    obtain ⟨t, us, rfl, hkind, hus⟩ := exists_mark_of_piecesOf hts
    obtain ⟨r, hr, hvalue, hleft⟩ := reads_alias eof p name params hbody rest us hus
    refine ⟨t, us, r, rfl, kind_ne_of_eq hkind Kind.noConfusion,
      kind_ne_of_eq hkind Kind.noConfusion, ?_, hvalue, hleft⟩
    rw [parseItem, if_neg (kind_ne_of_eq hkind Kind.noConfusion),
      if_neg (kind_ne_of_eq hkind Kind.noConfusion),
      if_neg (fun hconst => by rw [hkind] at hconst; exact Kind.noConfusion hconst.1),
      if_pos hkind, hr]
    rfl
  | bare => cases hbody

/-- A declaration starts with its keyword. -/
theorem headKind_declarationPieces {item : Item} (h : item.isWritable) (rest : List Piece) :
    Piece.headKind (item.declarationPieces ++ rest) ≠ .doc ∧
      Piece.headKind (item.declarationPieces ++ rest) ≠ .hash := by
  obtain ⟨name, params, p, body⟩ := item
  cases body with
  | bare =>
    simp only [Item.isWritable, Bool.and_eq_true] at h
    cases h.2
  | _ => exact ⟨Kind.noConfusion, Kind.noConfusion⟩

/-- **Items in canonical form are read back.** -/
theorem parseItems_of_piecesOf {items : List Item} (h : ∀ item ∈ items, item.isWritable)
    {ts : List Token} (hts : piecesOf ts = items.flatMap Item.pieces) :
    parseItems eof ts = .ok items := by
  induction items generalizing ts with
  | nil =>
    rw [List.map_eq_nil_iff.1 hts, parseItems]
  | cons item items ih =>
    obtain ⟨hitem, hitems⟩ := List.forall_mem_cons.1 h
    rw [List.flatMap_cons] at hts
    obtain ⟨hdoc, hhash⟩ := headKind_declarationPieces hitem (items.flatMap Item.pieces)
    have hpreamble : item.preamble.isWritable := by
      simp only [Item.isWritable, Bool.and_eq_true] at hitem
      exact hitem.1.2
    refine parseItems_of_reads (v := .inherited) rfl (item.preamble.not_opensInner hhash)
      (reads_preamble eof hdoc hhash hpreamble) (readsItem eof hitem _)
      (fun us hus => ih hitems hus) ?_
    rw [hts, Item.pieces, List.append_assoc]
    rfl

end Reading

/-! ## Items in canonical form are legible -/

/-- An item is legible if the numbers in its value are numerals. -/
theorem Item.legible_pieces {item : Item} (h : item.isWritable)
    (hnumbers : ∀ text ∈ item.numbers, isNumeral text.toList) :
    ∀ p ∈ item.pieces, p.Legible := by
  obtain ⟨name, params, preamble, body⟩ := item
  simp only [Item.isWritable, Bool.and_eq_true] at h
  obtain ⟨⟨⟨hname, hparams⟩, hpreamble⟩, hbody⟩ := h
  rw [Item.pieces, List.forall_mem_append]
  refine ⟨Preamble.legible_pieces hpreamble, ?_⟩
  cases body with
  | struct shape fields =>
    rw [declarationPieces, List.forall_mem_cons, List.forall_mem_cons, List.forall_mem_append]
    exact ⟨Piece.legible_mark (by decide), Piece.legible_name hname,
      legible_genericsPieces hparams, Body.legible_structPieces hbody⟩
  | enum variants =>
    rw [declarationPieces, List.forall_mem_cons, List.forall_mem_cons, List.forall_mem_append]
    exact ⟨Piece.legible_mark (by decide), Piece.legible_name hname,
      legible_genericsPieces hparams, Body.legible_enumPieces hbody⟩
  | const type value =>
    rw [Body.isWritable, Bool.and_eq_true] at hbody
    have hvalue : ∀ e ∈ value, ∀ text ∈ e.numbers, isNumeral text.toList := by
      rintro e he
      cases he
      exact hnumbers
    rw [declarationPieces, List.forall_mem_cons, List.forall_mem_cons, List.forall_mem_cons,
      List.forall_mem_append, List.forall_mem_append, List.forall_mem_singleton]
    exact ⟨Piece.legible_mark (by decide), Piece.legible_name hname, Piece.legible_mark (by decide),
      TypeExpr.legible_pieces type hbody.1, Body.legible_valuePieces hbody.2 hvalue,
      Piece.legible_mark (by decide)⟩
  | typeAlias target =>
    rw [declarationPieces, List.forall_mem_cons, List.forall_mem_cons, List.forall_mem_append,
      List.forall_mem_cons, List.forall_mem_append, List.forall_mem_singleton]
    exact ⟨Piece.legible_mark (by decide), Piece.legible_name hname,
      legible_genericsPieces hparams, Piece.legible_mark (by decide),
      TypeExpr.legible_pieces target hbody, Piece.legible_mark (by decide)⟩
  | bare => cases hbody

/-! ## The round trip -/

/-- **A source in canonical form is read back if and only if its numbers are numerals.** -/
theorem parse_canonicalSource {items : List Item} (h : ∀ item ∈ items, item.isWritable) :
    parse (canonicalSource items) = .ok items ↔
      ∀ item ∈ items, ∀ text ∈ item.numbers, isNumeral text.toList := by
  constructor
  · exact isNumeral_of_parse
  · intro hnumbers
    refine parseItems_of_piecesOf _ h (Piece.pieces_tokenize ?_)
    rw [List.forall_mem_flatMap]
    exact fun item hitem => Item.legible_pieces (h item hitem) (hnumbers item hitem)

/-- A struct with documentation, an attribute, a type parameter and a field. -/
def shelf : Item :=
  ⟨"Shelf", ["T"], ⟨["A shelf."], [⟨"serde", [⟨"rename", some "shelf"⟩]⟩]⟩,
    .struct .named [⟨some "books", .sequence (.path "T" []), ⟨[], []⟩⟩]⟩

/-- A constant whose value is a number behind a minus. -/
def limit (number : String) : Item :=
  ⟨"LIMIT", [], ⟨[], []⟩, .const (.primitive "f64") (some (.unary "-" (.literal number .number)))⟩

example : canonicalSource [shelf, limit "1."] = "/// A shelf.\n" ++
    "# [ serde ( rename = \"shelf\" ) ] struct Shelf < T > \x7b books : Vec < T > , \x7d " ++
    "const LIMIT : f64 = - 1. ; " := by
  decide

/-- A point behind a number has to have a digit behind it. -/
theorem parse_canonicalSource_shelf :
    (∀ item ∈ [shelf, limit "1.5"], item.isWritable) ∧
      (∀ item ∈ [shelf, limit "1."], item.isWritable) ∧
      parse (canonicalSource [shelf, limit "1.5"]) = .ok [shelf, limit "1.5"] ∧
      parse (canonicalSource [shelf, limit "1."]) ≠ .ok [shelf, limit "1."] := by
  have hread : ∀ item ∈ [shelf, limit "1.5"], item.isWritable := by decide
  have hlost : ∀ item ∈ [shelf, limit "1."], item.isWritable := by decide
  refine ⟨hread, hlost, (parse_canonicalSource hread).2 (by decide), fun h => ?_⟩
  have hnumbers := (parse_canonicalSource hlost).1 h (limit "1.") (by simp) "1." (by decide)
  revert hnumbers
  decide

end Rust
end Ferrotype

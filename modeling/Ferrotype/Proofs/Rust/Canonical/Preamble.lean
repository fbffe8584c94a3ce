/-
# Spelling preambles

In canonical form the lines of documentation stand before the attributes, each behind three
slashes. `reads_preamble` says that they are read back in front of everything that goes on with
neither.
-/

import Ferrotype.Proofs.Rust.Canonical.Attribute

namespace Ferrotype
namespace Rust

open Piece (mark)

namespace Preamble

/-- The pieces of a preamble. -/
def pieces (p : Preamble) : List Piece :=
  p.docs.map (fun line => ⟨.doc, " " ++ line⟩) ++ p.attributes.flatMap Attribute.pieces

/-- Whether a preamble has a canonical form. -/
def isWritable (p : Preamble) : Bool :=
  p.docs.all Piece.isDocText && p.attributes.all Attribute.isWritable

end Preamble

/-! ## Reading preambles -/

section Reading

variable (eof : Token)

/-- The blank in front of a line of documentation is left out. -/
theorem docLine_blank (line : String) : docLine (" " ++ line) = line := by
  rw [docLine, String.toList_append]
  exact String.ofList_toList

/-- An attribute in canonical form is no line of documentation. -/
theorem Preamble.consAttribute_of_isWritable {a : Attribute} (h : a.isWritable) (p : Preamble) :
    p.consAttribute a = { p with attributes := a :: p.attributes } := by
  unfold Preamble.consAttribute
  split
  · rw [Attribute.isWritable, Bool.and_eq_true, List.all_cons, Bool.and_eq_true] at h
    exact absurd rfl (Piece.ne_empty_of_isName h.2.1)
  · rfl

/-- An attribute stands before the rest of its preamble. -/
theorem reads_preamble_attribute {ps qs rest : List Piece} {a : Attribute} {p : Preamble}
    (hbody : Reads (attributeBody eof) ps a qs) (h : Reads (preamble eof) qs p rest) :
    Reads (preamble eof) (mark .hash :: mark .lbracket :: ps) (p.consAttribute a) rest := by
  intro ts hts
  obtain ⟨t, us, rfl, hkind, hus⟩ := exists_mark_of_piecesOf hts
  obtain ⟨u, vs, rfl, hu, hvs⟩ := exists_mark_of_piecesOf hus
  obtain ⟨body, (hread : attributeBody eof ((u :: vs).drop 1) = .ok body), hvalue, hleft⟩ :=
    hbody vs hvs
  obtain ⟨more, hmore, hvalues, hend⟩ := h body.rest hleft
  rw [preamble, if_neg (kind_ne_of_eq hkind Kind.noConfusion), if_pos ⟨hkind, hu⟩, hread]
  simp only [bind, Except.bind, hmore]
  refine ⟨_, rfl, ?_, hend⟩
  rw [Parsed.value_later, Parsed.value_widen, Parsed.value_map, hvalue, hvalues]

/-- A line of documentation stands before the rest of its preamble. -/
theorem reads_preamble_doc (text : String) {qs rest : List Piece} {p : Preamble}
    (h : Reads (preamble eof) qs p rest) :
    Reads (preamble eof) (⟨.doc, text⟩ :: qs) (p.consDoc text) rest := by
  intro ts hts
  obtain ⟨t, us, rfl, hkind, htext, hus⟩ := exists_cons_of_piecesOf hts
  obtain ⟨more, hmore, hvalue, hend⟩ := h us hus
  rw [preamble, if_pos hkind, hmore]
  refine ⟨_, rfl, ?_, hend⟩
  rw [Parsed.value_later, Parsed.value_map, hvalue, htext]

section Rest

variable {rest : List Piece} (hdoc : Piece.headKind rest ≠ .doc)
  (hhash : Piece.headKind rest ≠ .hash)
include hdoc hhash

/-- What starts neither with documentation nor with an attribute has nothing in front. -/
theorem reads_preamble_nil : Reads (preamble eof) rest ⟨[], []⟩ rest := by
  intro ts hts
  rw [← headKind_of_piecesOf hts] at hdoc hhash
  exact ⟨_, preamble_of_none hdoc fun h => absurd h hhash, rfl, hts⟩

/-- Attributes are read back in front of an item. -/
theorem reads_attributes {attributes : List Attribute} (h : ∀ a ∈ attributes, a.isWritable) :
    Reads (preamble eof) (attributes.flatMap Attribute.pieces ++ rest) ⟨[], attributes⟩ rest := by
  induction attributes with
  | nil => exact reads_preamble_nil eof hdoc hhash
  | cons a attributes ih =>
    obtain ⟨ha, hattributes⟩ := List.forall_mem_cons.1 h
    have hread := reads_preamble_attribute eof (reads_attributeBody eof a _) (ih hattributes)
    rw [Preamble.consAttribute_of_isWritable ha] at hread
    simpa only [List.flatMap_cons, Attribute.pieces, List.append_assoc, List.cons_append,
      List.singleton_append, List.nil_append] using hread

/-- **A preamble in canonical form is read back.** -/
theorem reads_preamble {p : Preamble} (h : p.isWritable) :
    Reads (preamble eof) (p.pieces ++ rest) p rest := by
  obtain ⟨docs, attributes⟩ := p
  rw [Preamble.isWritable, Bool.and_eq_true, List.all_eq_true, List.all_eq_true] at h
  have hattributes : Reads (preamble eof) (attributes.flatMap Attribute.pieces ++ rest)
      ⟨[], attributes⟩ rest := reads_attributes eof hdoc hhash h.2
  rw [Preamble.pieces, List.append_assoc]
  clear h
  induction docs with
  | nil => exact hattributes
  | cons line docs ih =>
    have hread := reads_preamble_doc eof (" " ++ line) ih
    rwa [Preamble.consDoc, docLine_blank] at hread

end Rest

end Reading

/-- Whether pieces open an attribute of the whole source. -/
def Piece.opensInner (ps : List Piece) : Prop :=
  headKind ps = .hash ∧ headKind (ps.drop 1) = .bang

/-- A preamble in canonical form opens no attribute of the whole source. -/
theorem Preamble.not_opensInner (p : Preamble) {rest : List Piece}
    (hrest : Piece.headKind rest ≠ .hash) : ¬ Piece.opensInner (p.pieces ++ rest) := by
  rintro ⟨hhash, hbang⟩
  obtain ⟨docs, attributes⟩ := p
  cases docs with
  | cons line docs => cases hhash
  | nil =>
    cases attributes with
    | cons a attributes => cases hbang
    | nil => exact hrest hhash

/-- The tokens in front of an item are legible. -/
theorem Preamble.legible_pieces {p : Preamble} (h : p.isWritable) :
    ∀ q ∈ p.pieces, q.Legible := by
  rw [Preamble.isWritable, Bool.and_eq_true, List.all_eq_true, List.all_eq_true] at h
  rw [Preamble.pieces, List.forall_mem_append, List.forall_mem_map, List.forall_mem_flatMap]
  exact ⟨fun line hline => Piece.legible_of_isDocText (h.1 line hline),
    fun a ha => Attribute.legible_pieces (h.2 a ha)⟩

end Rust
end Ferrotype

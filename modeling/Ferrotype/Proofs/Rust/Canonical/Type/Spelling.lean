/-
# Spelling types

In canonical form a type is a path with its arguments in angle brackets, a tuple in parentheses, or
one of the two scalars that are punctuation. Containers are written by the names `Option`, `Vec`,
`HashSet` and `HashMap`; a tuple of one element has a comma behind it.
-/

import Ferrotype.Proofs.Rust.Canonical.Path

namespace Ferrotype
namespace Rust

open Piece (mark isName)

/-! ## Spelling -/

/-- The pieces of a scalar type. -/
def scalarPieces (name : String) : List Piece :=
  if name = "()" then [mark .lparen, mark .rparen]
  else if name = "!" then [mark .bang]
  else Piece.path (partsOf name)

/-- The pieces of a name with arguments. -/
def appliedPieces (name : String) (args : List Piece) : List Piece :=
  Piece.name name :: mark .lt :: (args ++ [mark .gt])

namespace TypeExpr

mutual

/-- The pieces of a type in canonical form. -/
def pieces : TypeExpr → List Piece
  | path name args =>
    if args.isEmpty then [Piece.name name] else appliedPieces name (piecesAll args)
  | primitive name => scalarPieces name
  | option inner => appliedPieces "Option" inner.pieces
  | sequence element => appliedPieces "Vec" element.pieces
  | set element => appliedPieces "HashSet" element.pieces
  | map key value => appliedPieces "HashMap" (key.pieces ++ mark .comma :: value.pieces)
  | tuple elements =>
    mark .lparen :: (piecesAll elements ++
      ((if elements.length = 1 then [mark .comma] else []) ++ [mark .rparen]))
  | verbatim _ => []
  | unknown _ => []

/-- The pieces of types with commas between them. -/
def piecesAll : List TypeExpr → List Piece
  | [] => []
  | [t] => t.pieces
  | t :: u :: us => t.pieces ++ mark .comma :: piecesAll (u :: us)

end

/-- Whether a name can be that of a type of the source: it is neither a container nor a scalar, and
starts no type that is kept as text. -/
def isPathName (name : String) : Bool :=
  isName name && (containers.lookup name).isNone && (scalars.lookup name).isNone &&
    !verbatimWords.contains name

mutual

/-- Whether a type has a canonical form. -/
def isWritable : TypeExpr → Bool
  | path name args => isPathName name && isWritableAll args
  | primitive name => (scalars.lookup name).isSome
  | option inner => inner.isWritable
  | sequence element => element.isWritable
  | set element => element.isWritable
  | map key value => key.isWritable && value.isWritable
  | tuple elements => !elements.isEmpty && isWritableAll elements
  | verbatim _ => false
  | unknown _ => false

/-- Whether types have a canonical form. -/
def isWritableAll : List TypeExpr → Bool
  | [] => true
  | t :: ts => t.isWritable && isWritableAll ts

end

end TypeExpr

/-! ## Types in canonical form are legible -/

/-- A name that is found among the scalars is the name of one. -/
theorem mem_of_lookup_isSome {name : String} (h : (scalars.lookup name).isSome) :
    ∃ e ∈ scalars, e.1 = name := by
  obtain ⟨written, hwritten⟩ := Option.isSome_iff_exists.1 h
  obtain ⟨before, after, hsplit, -⟩ := List.lookup_eq_some_iff.1 hwritten
  exact ⟨(name, written), hsplit ▸ List.mem_append_right _ List.mem_cons_self, rfl⟩

/-- The tokens of a name with arguments are legible. -/
theorem legible_appliedPieces {name : String} (hname : isName name) {args : List Piece}
    (hargs : ∀ p ∈ args, p.Legible) : ∀ p ∈ appliedPieces name args, p.Legible := by
  rw [appliedPieces, List.forall_mem_cons]
  exact ⟨Piece.legible_name hname, Piece.legible_enclosed (by decide) (by decide) hargs⟩

/-- The tokens of a scalar are legible. -/
theorem legible_scalarPieces {name : String} (h : (scalars.lookup name).isSome) :
    ∀ p ∈ scalarPieces name, p.Legible := by
  have hnames : ∀ e ∈ scalars, e.1 = "()" ∨ e.1 = "!" ∨ ∀ part ∈ partsOf e.1, isName part := by
    decide
  obtain ⟨e, he, rfl⟩ := mem_of_lookup_isSome h
  rw [scalarPieces]
  split
  · rw [List.forall_mem_cons, List.forall_mem_singleton]
    exact ⟨Piece.legible_mark (by decide), Piece.legible_mark (by decide)⟩
  · split
    · rw [List.forall_mem_singleton]
      exact Piece.legible_mark (by decide)
    · rename_i hunit hnever
      rcases hnames e he with h | h | h
      · exact absurd h hunit
      · exact absurd h hnever
      · exact Piece.legible_path h

mutual

/-- The tokens of a type are legible. The recursion is that of types. -/
theorem TypeExpr.legible_pieces (t : TypeExpr) (h : t.isWritable) :
    ∀ p ∈ t.pieces, p.Legible := by
  cases t with
  | path name args =>
    simp only [TypeExpr.isWritable, TypeExpr.isPathName, Bool.and_eq_true] at h
    obtain ⟨⟨⟨⟨hname, -⟩, -⟩, -⟩, hargs⟩ := h
    rw [TypeExpr.pieces]
    split
    · rw [List.forall_mem_singleton]
      exact Piece.legible_name hname
    · exact legible_appliedPieces hname (TypeExpr.legible_piecesAll args hargs)
  | primitive name => exact legible_scalarPieces h
  | option inner =>
    rw [TypeExpr.isWritable] at h
    exact legible_appliedPieces (by decide) (TypeExpr.legible_pieces inner h)
  | sequence element =>
    rw [TypeExpr.isWritable] at h
    exact legible_appliedPieces (by decide) (TypeExpr.legible_pieces element h)
  | set element =>
    rw [TypeExpr.isWritable] at h
    exact legible_appliedPieces (by decide) (TypeExpr.legible_pieces element h)
  | map key value =>
    rw [TypeExpr.isWritable, Bool.and_eq_true] at h
    refine legible_appliedPieces (by decide) ?_
    rw [List.forall_mem_append, List.forall_mem_cons]
    exact ⟨TypeExpr.legible_pieces key h.1, Piece.legible_mark (by decide),
      TypeExpr.legible_pieces value h.2⟩
  | tuple elements =>
    rw [TypeExpr.isWritable, Bool.and_eq_true] at h
    rw [TypeExpr.pieces, List.forall_mem_cons, List.forall_mem_append, List.forall_mem_append,
      List.forall_mem_singleton]
    refine ⟨Piece.legible_mark (by decide), TypeExpr.legible_piecesAll elements h.2, ?_,
      Piece.legible_mark (by decide)⟩
    split
    · rw [List.forall_mem_singleton]
      exact Piece.legible_mark (by decide)
    · exact List.forall_mem_nil _
  | verbatim text => cases h
  | unknown label => cases h

/-- The same of the members of a list. -/
theorem TypeExpr.legible_piecesAll (ts : List TypeExpr) (h : TypeExpr.isWritableAll ts) :
    ∀ p ∈ TypeExpr.piecesAll ts, p.Legible := by
  match ts with
  | [] => exact List.forall_mem_nil _
  | [t] =>
    rw [TypeExpr.isWritableAll, Bool.and_eq_true] at h
    exact TypeExpr.legible_pieces t h.1
  | t :: u :: us =>
    rw [TypeExpr.isWritableAll, Bool.and_eq_true] at h
    rw [TypeExpr.piecesAll, List.forall_mem_append, List.forall_mem_cons]
    exact ⟨TypeExpr.legible_pieces t h.1, Piece.legible_mark (by decide),
      TypeExpr.legible_piecesAll (u :: us) h.2⟩

end

end Rust
end Ferrotype

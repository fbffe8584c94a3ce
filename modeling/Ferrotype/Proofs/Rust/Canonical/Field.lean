/-
# Spelling fields

In canonical form every member of a struct or an enum has its preamble before it and a comma behind
it. A field is a name and a type, or a type alone.

`reads_members` says that a list of members is read back if each member is; `memberRead_named` and
`memberRead_tuple` say that each field is.
-/

import Ferrotype.Proofs.Rust.Canonical.Preamble
import Ferrotype.Proofs.Rust.Canonical.Type

namespace Ferrotype
namespace Rust

open Piece (mark isName)

/-! ## Spelling -/

/-- The pieces of members, each with its preamble before it and a comma behind it. -/
def memberPieces {α : Type} (write : α → List Piece) (preambleOf : α → Preamble) (ms : List α) :
    List Piece :=
  ms.flatMap fun m => (preambleOf m).pieces ++ (write m ++ [mark .comma])

namespace Field

/-- The pieces of a field with a name. -/
def namedPieces (f : Field) : List Piece :=
  Piece.name (f.name.getD "") :: mark .colon :: f.type.pieces

/-- The pieces of a field of a tuple. -/
def tuplePieces (f : Field) : List Piece := f.type.pieces

/-- Whether a field has a canonical form among fields with names. -/
def isNamed (f : Field) : Bool :=
  f.name.any isName && f.type.isWritable && f.preamble.isWritable

/-- Whether a field has a canonical form among the fields of a tuple. -/
def isPositional (f : Field) : Bool :=
  f.name.isNone && f.type.isWritable && f.preamble.isWritable

end Field

/-- The pieces of fields in braces. -/
def namedFieldsPieces (fields : List Field) : List Piece :=
  mark .lbrace :: (memberPieces Field.namedPieces Field.preamble fields ++ [mark .rbrace])

/-- The pieces of fields in parentheses. -/
def tupleFieldsPieces (fields : List Field) : List Piece :=
  mark .lparen :: (memberPieces Field.tuplePieces Field.preamble fields ++ [mark .rparen])

/-! ## Lists of members -/

section Members

variable (eof : Token) {α : Type}
  (member : Preamble → (ts : List Token) → Result (Parsed α ts.length))
  (write : α → List Piece) (preambleOf : α → Preamble)

/-- Whether a member is read back behind its preamble and in front of a comma. -/
structure MemberRead (m : α) : Prop where
  writable : (preambleOf m).isWritable
  starts : startsType (Piece.headKind (write m))
  reads : ∀ rest, Reads (member (preambleOf m)) (write m ++ mark .comma :: rest) m
    (mark .comma :: rest)

/-- A preamble starts with a line of documentation or a hash. -/
theorem headKind_preamble (p : Preamble) (ps : List Piece) :
    Piece.headKind (p.pieces ++ ps) = .doc ∨ Piece.headKind (p.pieces ++ ps) = .hash ∨
      p.pieces = [] := by
  obtain ⟨docs, attributes⟩ := p
  cases docs with
  | cons line docs => exact .inl rfl
  | nil =>
    cases attributes with
    | cons a attributes => exact .inr (.inl rfl)
    | nil => exact .inr (.inr rfl)

variable {member write preambleOf} {closer : Kind} (separator : α → Place)

/-- No members are read back in front of the closing token. -/
theorem reads_members_nil (rest : List Piece) :
    Reads (members eof closer separator member) (mark closer :: rest) [] rest := by
  intro ts hts
  obtain ⟨t, us, rfl, hkind, hus⟩ := exists_mark_of_piecesOf hts
  rw [members, if_pos hkind]
  exact ⟨_, rfl, rfl, hus⟩

/-- A member is read behind its preamble, and what stands behind the member decides about the
others. -/
theorem reads_members_behind (hcloses : closer.closes) {p : Preamble} (hp : p.isWritable)
    {m : α} {ms : List α} {qs ps rest : List Piece} (hstarts : startsType (Piece.headKind qs))
    (hm : Reads (member p) qs m ps)
    (hbehind : Reads (membersBehind eof separator member closer m) ps ms rest) :
    Reads (members eof closer separator member) (p.pieces ++ qs) ms rest := by
  intro ts hts
  have hcloser : startsType closer = false ∧ Kind.doc ≠ closer ∧ Kind.hash ≠ closer := by
    cases closer <;> first | exact ⟨rfl, Kind.noConfusion, Kind.noConfusion⟩ | cases hcloses
  have hhead : headKind ts ≠ closer := by
    rw [headKind_of_piecesOf hts]
    rcases headKind_preamble p qs with h | h | h
    · rw [h]
      exact hcloser.2.1
    · rw [h]
      exact hcloser.2.2
    · rw [h]
      exact ne_of_startsType hstarts hcloser.1
  obtain ⟨q, hq, hpreamble, hleft⟩ := reads_preamble eof
    (ne_of_startsType hstarts rfl) (ne_of_startsType hstarts rfl) hp ts hts
  obtain ⟨read, hread, hvalue, hend⟩ := hm _ hleft
  obtain ⟨more, hmore, hvalues, hend⟩ := hbehind _ hend
  cases ts with
  | nil =>
    obtain ⟨-, rfl⟩ := List.append_eq_nil_iff.1 hts.symm
    cases hstarts
  | cons t ts =>
    have hleft' : headKind q.rest ≠ closer := by
      rw [headKind_of_piecesOf hleft]
      exact ne_of_startsType hstarts hcloser.1
    rw [members_of_member eof separator member hhead hq hleft', hpreamble, hread]
    simp only [bind, Except.bind, hvalue, hmore]
    exact ⟨_, rfl, hvalues, hend⟩

/-- Members are read back if the first one is and the others are. -/
theorem reads_members_cons (hcloses : closer.closes) {m : α} {ms : List α} {ps rest : List Piece}
    (hm : MemberRead member write preambleOf m)
    (hms : Reads (members eof closer separator member) ps ms rest) :
    Reads (members eof closer separator member)
      ((preambleOf m).pieces ++ (write m ++ mark .comma :: ps)) (m :: ms) rest := by
  have hstarts := hm.starts
  rw [← headKind_append hstarts (mark .comma :: ps)] at hstarts
  exact reads_members_behind eof separator hcloses hm.writable hstarts (hm.reads ps)
    (reads_parseSeparated_cons hms)

/-- **Members are read back if each of them is.** -/
theorem reads_members (hcloses : closer.closes) {ms : List α}
    (h : ∀ m ∈ ms, MemberRead member write preambleOf m) (rest : List Piece) :
    Reads (members eof closer separator member)
      (memberPieces write preambleOf ms ++ mark closer :: rest) ms rest := by
  induction ms with
  | nil => exact reads_members_nil eof separator rest
  | cons m ms ih =>
    obtain ⟨hm, hms⟩ := List.forall_mem_cons.1 h
    have hread := reads_members_cons eof separator hcloses hm (ih hms)
    simpa [memberPieces] using hread

end Members

/-! ## Fields -/

section Fields

variable (eof : Token)

/-- Nothing is dropped where no `pub` stands. -/
theorem dropVisibility_of_headKind {ts : List Token} (h : headKind ts ≠ .pub) :
    dropVisibility ts = ts := by
  cases ts with
  | nil => rfl
  | cons t ts =>
    rw [headKind_cons] at h
    rw [dropVisibility, if_neg h]

/-- Fields with names are read back. -/
theorem memberRead_named {f : Field} (h : f.isNamed) :
    MemberRead (namedField eof) Field.namedPieces Field.preamble f := by
  obtain ⟨name, type, preamble⟩ := f
  rw [Field.isNamed, Bool.and_eq_true, Bool.and_eq_true] at h
  obtain ⟨⟨hname, htype⟩, hpreamble⟩ := h
  refine ⟨hpreamble, rfl, fun rest ts hts => ?_⟩
  cases name with
  | none => cases hname
  | some name =>
    have hvisible : piecesOf (dropVisibility ts) =
        Piece.name name :: mark .colon :: (type.pieces ++ mark .comma :: rest) := by
      rw [dropVisibility_of_headKind, hts]
      · rfl
      · rw [headKind_of_piecesOf hts]
        exact Kind.noConfusion
    obtain ⟨n, hn, htext, hleft⟩ := expect_of_name hvisible eof .fieldName
    obtain ⟨c, hc, hleft⟩ := expect_of_mark hleft eof (.afterField n.value.text)
    obtain ⟨t, ht, hvalue, hrest⟩ := TypeExpr.isRead_of_isWritable eof type htype _
      ⟨Kind.noConfusion, Kind.noConfusion⟩ c.rest hleft
    rw [namedField, hn]
    simp only [bind, Except.bind, hc, ht]
    refine ⟨_, rfl, ?_, hrest⟩
    rw [htext, hvalue]

/-- Fields by position are read back. -/
theorem memberRead_tuple {f : Field} (h : f.isPositional) :
    MemberRead (tupleField eof) Field.tuplePieces Field.preamble f := by
  obtain ⟨name, type, preamble⟩ := f
  rw [Field.isPositional, Bool.and_eq_true, Bool.and_eq_true, Option.isNone_iff_eq_none] at h
  obtain ⟨⟨rfl, htype⟩, hpreamble⟩ := h
  have hstarts : startsType (Piece.headKind type.pieces) :=
    startsType_of_opensAsType (TypeExpr.opensType_pieces htype)
  refine ⟨hpreamble, hstarts, fun rest ts hts => ?_⟩
  have hvisible : piecesOf (dropVisibility ts) = type.pieces ++ mark .comma :: rest := by
    rw [dropVisibility_of_headKind, hts]
    · rfl
    · rw [headKind_of_piecesOf hts]
      refine ne_of_startsType ?_ rfl
      rw [Field.tuplePieces, headKind_append hstarts]
      exact hstarts
  obtain ⟨t, ht, hvalue, hrest⟩ := TypeExpr.isRead_of_isWritable eof type htype _
    ⟨Kind.noConfusion, Kind.noConfusion⟩ (dropVisibility ts) hvisible
  rw [tupleField, ht]
  refine ⟨_, rfl, ?_, hrest⟩
  rw [Parsed.value_widen, Parsed.value_map, hvalue]

/-- Lists of fields with names are read back inside their braces. -/
theorem reads_namedFields {fields : List Field} (h : fields.all Field.isNamed)
    (rest : List Piece) :
    Reads (namedFields eof) (memberPieces Field.namedPieces Field.preamble fields ++
      mark .rbrace :: rest) fields rest :=
  reads_members eof _ rfl
    (fun f hf => memberRead_named eof (List.all_eq_true.1 h f hf)) rest

/-- Lists of fields by position are read back inside their parentheses. -/
theorem reads_tupleFields {fields : List Field} (h : fields.all Field.isPositional)
    (rest : List Piece) :
    Reads (tupleFields eof) (memberPieces Field.tuplePieces Field.preamble fields ++
      mark .rparen :: rest) fields rest :=
  reads_members eof _ rfl
    (fun f hf => memberRead_tuple eof (List.all_eq_true.1 h f hf)) rest

end Fields

/-! ## Fields are legible -/

/-- The tokens of members are legible if those of each one and of what stands in front of it are. -/
theorem legible_memberPieces {α : Type} {write : α → List Piece} {preambleOf : α → Preamble}
    {ms : List α} (h : ∀ m ∈ ms, (preambleOf m).isWritable ∧ ∀ p ∈ write m, p.Legible) :
    ∀ p ∈ memberPieces write preambleOf ms, p.Legible := by
  rw [memberPieces, List.forall_mem_flatMap]
  intro m hm
  rw [List.forall_mem_append, List.forall_mem_append, List.forall_mem_singleton]
  exact ⟨Preamble.legible_pieces (h m hm).1, (h m hm).2, Piece.legible_mark (by decide)⟩

/-- The tokens of fields with names are legible. -/
theorem legible_namedFieldsPieces {fields : List Field} (h : fields.all Field.isNamed) :
    ∀ p ∈ namedFieldsPieces fields, p.Legible := by
  refine Piece.legible_enclosed (by decide) (by decide) (legible_memberPieces fun f hf => ?_)
  have hnamed := List.all_eq_true.1 h f hf
  rw [Field.isNamed, Bool.and_eq_true, Bool.and_eq_true, Option.any_eq_true] at hnamed
  obtain ⟨⟨⟨name, hsome, hname⟩, htype⟩, hpreamble⟩ := hnamed
  rw [Field.namedPieces, hsome, List.forall_mem_cons, List.forall_mem_cons]
  exact ⟨hpreamble, Piece.legible_name hname, Piece.legible_mark (by decide),
    TypeExpr.legible_pieces f.type htype⟩

/-- The tokens of fields by position are legible. -/
theorem legible_tupleFieldsPieces {fields : List Field} (h : fields.all Field.isPositional) :
    ∀ p ∈ tupleFieldsPieces fields, p.Legible := by
  refine Piece.legible_enclosed (by decide) (by decide) (legible_memberPieces fun f hf => ?_)
  have hpositional := List.all_eq_true.1 h f hf
  rw [Field.isPositional, Bool.and_eq_true, Bool.and_eq_true] at hpositional
  exact ⟨hpositional.2, TypeExpr.legible_pieces f.type hpositional.1.2⟩

end Rust
end Ferrotype

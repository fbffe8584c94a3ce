/-
# Plain types

A plain type is one whose values can be written as literals: a number, `bool`, `char`, a string or
the unit, and references, slices, arrays, tuples and options of such types. It can be spelled with
or without lifetimes, `mut` and a comma behind the last element of a tuple, and with any length of
an array.

`readAsType_of_isWritable` says what it is read as: references leave no trace, and arrays and
slices are sequences. The lemmas before it say so for every type that stands inside another one, and
`IsType` says the same of tokens.
-/

import Ferrotype.Proofs.Rust.Canonical.Type
import Ferrotype.Proofs.Rust.Walk.Type

namespace Ferrotype
namespace Rust

open Piece (mark)

/-! ## Spelling -/

/-- A type whose values can be written as literals. -/
inductive PlainType
  | scalar (name : String)
  | unit
  | reference (lifetime : Option String) (isMut : Bool) (target : PlainType)
  | slice (element : PlainType)
  /-- An array, with the pieces of its length. -/
  | array (element : PlainType) (length : List Piece)
  /-- A tuple, and whether a comma stands behind its last element. -/
  | tuple (elements : List PlainType) (trailing : Bool)
  | option (inner : PlainType)

/-- The scalar types whose values are numbers. -/
def numberScalars : List String :=
  ["i8", "i16", "i32", "i64", "i128", "isize", "u8", "u16", "u32", "u64", "u128", "usize", "f32",
    "f64"]

/-- The scalar types whose values can be written as literals. -/
def plainScalars : List String := numberScalars ++ ["bool", "char", "str", "String"]

namespace Piece

/-- Whether pieces that stand inside `depth` open groups of brackets close these, and no other
groups than those that are opened in them. -/
def isClosed : Nat → List Piece → Bool
  | depth, [] => depth == 0
  | depth, p :: ps =>
    !(depth == 0 && p.kind.closes) &&
      isClosed
        (if p.kind.opens then depth + 1 else if p.kind.closes then depth - 1 else depth) ps

/-- The sign of a reference with a lifetime and `mut`. -/
def reference (lifetime : Option String) (isMut : Bool) : List Piece :=
  ⟨.ampersand, "&"⟩ :: (lifetime.toList.map (⟨.lifetime, ·⟩) ++
    if isMut then [⟨.mutWord, "mut"⟩] else [])

/-- A comma that may stand behind the last of several things. -/
def trailingComma (trailing : Bool) : List Piece := if trailing then [mark .comma] else []

end Piece

namespace PlainType

mutual

/-- The pieces of a type. -/
def pieces : PlainType → List Piece
  | scalar name => [Piece.name name]
  | unit => [mark .lparen, mark .rparen]
  | reference lifetime isMut target => Piece.reference lifetime isMut ++ target.pieces
  | slice element => mark .lbracket :: (element.pieces ++ [mark .rbracket])
  | array element length =>
    mark .lbracket :: (element.pieces ++ mark .semicolon :: (length ++ [mark .rbracket]))
  | tuple elements trailing =>
    mark .lparen :: (piecesAll elements ++ (Piece.trailingComma trailing ++ [mark .rparen]))
  | option inner => appliedPieces "Option" inner.pieces

/-- The pieces of types with commas between them. -/
def piecesAll : List PlainType → List Piece
  | [] => []
  | [t] => t.pieces
  | t :: u :: us => t.pieces ++ mark .comma :: piecesAll (u :: us)

end

mutual

/-- Whether a type is spelled as the grammar asks for. -/
def isWritable : PlainType → Bool
  | scalar name => plainScalars.contains name
  | unit => true
  | reference _ _ target => target.isWritable
  | slice element => element.isWritable
  | array element length => element.isWritable && Piece.isClosed 0 length
  | tuple elements trailing =>
    !elements.isEmpty && (trailing || elements.length != 1) && isWritableAll elements
  | option inner => inner.isWritable

/-- Whether types are spelled as the grammar asks for. -/
def isWritableAll : List PlainType → Bool
  | [] => true
  | t :: ts => t.isWritable && isWritableAll ts

end

mutual

/-- What a type is read as. -/
def sorted : PlainType → TypeExpr
  | scalar name => .primitive name
  | unit => .primitive "()"
  | reference _ _ target => target.sorted
  | slice element => .sequence element.sorted
  | array element _ => .sequence element.sorted
  | tuple elements _ => .tuple (sortedAll elements)
  | option inner => .option inner.sorted

/-- What types are read as. -/
def sortedAll : List PlainType → List TypeExpr
  | [] => []
  | t :: ts => t.sorted :: sortedAll ts

end

/-- The tokens of a list are those of its members with commas between them. -/
theorem piecesAll_eq_separated (ts : List PlainType) :
    piecesAll ts = Piece.separated pieces ts := by
  fun_induction Piece.separated pieces ts with
  | case1 => rfl
  | case2 t => rfl
  | case3 t u us ih => rw [piecesAll, ih]

/-- The members of a list are sorted one by one. -/
theorem sortedAll_eq_map (ts : List PlainType) : sortedAll ts = ts.map sorted := by
  induction ts with
  | nil => rfl
  | cons t ts ih => rw [sortedAll, ih, List.map_cons]

end PlainType

/-! ## Reading -/

/-- The tokens of a length are passed over up to the bracket that closes the array. -/
theorem piecesOf_rawSpan_of_isClosed {depth : Nat} {length rest : List Piece} {ts : List Token}
    (hlength : Piece.isClosed depth length)
    (hts : piecesOf ts = length ++ mark .rbracket :: rest) :
    piecesOf (rawSpan (· == .rbracket) depth ts).2 = mark .rbracket :: rest := by
  induction length generalizing depth ts with
  | nil =>
    obtain rfl := beq_iff_eq.1 hlength
    obtain ⟨t, us, rfl, hkind, -⟩ := exists_mark_of_piecesOf hts
    rw [rawSpan, if_pos ⟨rfl, .inl (by rw [hkind]; rfl)⟩]
    exact hts
  | cons p ps ih =>
    obtain ⟨t, us, rfl, hkind, -, hus⟩ := exists_cons_of_piecesOf hts
    rw [Piece.isClosed, ← hkind, Bool.and_eq_true, Bool.not_eq_true', Bool.and_eq_false_iff,
      beq_eq_false_iff_ne] at hlength
    obtain ⟨hinside, hlength⟩ := hlength
    have hstop : ¬ (depth = 0 ∧ ((t.kind == .rbracket) ∨ t.kind.closes)) := by
      rintro ⟨hdepth, hbracket | hcloses⟩
      · rw [beq_iff_eq.1 hbracket] at hinside
        exact hinside.elim (absurd hdepth) (fun h => absurd h (by decide))
      · exact hinside.elim (absurd hdepth) (fun h => absurd hcloses (by rw [h]; decide))
    rw [rawSpan, if_neg hstop]
    exact ih hlength hus

/-- A token of the kind that may stand there is passed over. -/
theorem piecesOf_dropIf {p : Piece} {ps : List Piece} {ts : List Token}
    (hts : piecesOf ts = p :: ps) : piecesOf (dropIf p.kind ts) = ps := by
  obtain ⟨t, us, rfl, hkind, -, hus⟩ := exists_cons_of_piecesOf hts
  rwa [dropIf, if_pos hkind]

/-- Nothing is dropped where another kind comes next. -/
theorem piecesOf_dropIf_of_headKind {kind : Kind} {ps : List Piece} {ts : List Token}
    (hts : piecesOf ts = ps) (h : Piece.headKind ps ≠ kind) : piecesOf (dropIf kind ts) = ps := by
  rwa [dropIf_of_headKind]
  rwa [headKind_of_piecesOf hts]

section Reading

variable (eof : Token)

/-- The name of a scalar is one word. -/
theorem readAsType_scalar {name : String} (h : plainScalars.contains name) :
    ReadAsType eof [Piece.name name] (.primitive name) := by
  have hscalars : ∀ name ∈ plainScalars, (scalars.lookup name).isSome ∧
      scalarPieces name = [Piece.name name] := by decide
  obtain ⟨hscalar, hpieces⟩ := hscalars name (List.contains_iff_mem.1 h)
  refine ⟨fun heq hcolon => ⟨rfl, fun _ => ⟨heq, hcolon⟩⟩, fun rest hrest => ?_⟩
  rw [← hpieces]
  exact TypeExpr.isRead_scalar eof hscalar rest hrest

/-- A name alone is read as what it is sorted as. -/
theorem readAsType_name {name : String} (hname : verbatimWords.contains name = false) :
    ReadAsType eof [Piece.name name] (.classify name []) :=
  ⟨fun heq hcolon => ⟨rfl, fun _ => ⟨heq, hcolon⟩⟩, fun rest hrest =>
    @reads_path eof name [] rest hname hrest⟩

/-- Square brackets stand for a sequence of what is read behind the opening one, if the rest up to
the closing one is passed over. -/
theorem reads_sequence {ps qs rest : List Piece} {value : TypeExpr}
    (h : Reads (parseType eof) ps value qs)
    (hlength : ∀ ts, piecesOf ts = qs → piecesOf (dropLength ts) = mark .rbracket :: rest) :
    Reads (parseType eof) (mark .lbracket :: ps) (.sequence value) rest := by
  intro ts hts
  obtain ⟨t, us, rfl, hkind, hus⟩ := exists_mark_of_piecesOf hts
  obtain ⟨element, helement, hvalue, hqs⟩ := h us hus
  obtain ⟨closing, hclosing, hrest⟩ := expect_of_mark (hlength _ hqs) eof .closingArray
  rw [parseType, if_neg (kind_ne_of_eq hkind Kind.noConfusion),
    if_neg (kind_ne_of_eq hkind Kind.noConfusion), if_pos hkind, helement]
  simp only [bind, Except.bind, hclosing]
  refine ⟨_, rfl, ?_, hrest⟩
  rw [Parsed.value_later, Parsed.value_widen, Parsed.value_map, hvalue]

/-- A reference stands for its target. -/
theorem reads_reference (lifetime : Option String) (isMut : Bool) {ps rest : List Piece}
    {value : TypeExpr} (hps : startsType (Piece.headKind ps))
    (h : Reads (parseType eof) ps value rest) :
    Reads (parseType eof) (Piece.reference lifetime isMut ++ ps) value rest := by
  intro ts hts
  obtain ⟨t, us, rfl, hkind, -, hus⟩ := exists_cons_of_piecesOf hts
  have hdrop : piecesOf (dropReference us) = ps := by
    have hlifetime : Piece.headKind ps ≠ .lifetime := ne_of_startsType hps rfl
    have hmut : Piece.headKind ps ≠ .mutWord := ne_of_startsType hps rfl
    rw [dropReference]
    cases lifetime <;> cases isMut
    · exact piecesOf_dropIf_of_headKind (piecesOf_dropIf_of_headKind hus hlifetime) hmut
    · exact piecesOf_dropIf (piecesOf_dropIf_of_headKind hus Kind.noConfusion)
    · exact piecesOf_dropIf_of_headKind (piecesOf_dropIf hus) hmut
    · exact piecesOf_dropIf (piecesOf_dropIf hus)
  obtain ⟨inner, hinner, hvalue, hrest⟩ := h _ hdrop
  rw [parseType, if_pos hkind, hinner]
  refine ⟨_, rfl, ?_, hrest⟩
  rw [Parsed.value_later, Parsed.value_widen, hvalue]

/-! ## Types around types -/

section Around

variable {ps : List Piece} {value : TypeExpr}

/-- An empty pair of parentheses is the unit type. -/
theorem readAsType_unit : ReadAsType eof [mark .lparen, mark .rparen] (.primitive "()") :=
  ⟨fun _ _ => ⟨rfl, Kind.noConfusion⟩, fun rest _ =>
    reads_parentheses eof (reads_elements_nil eof rest false)⟩

/-- A reference to a type is read as the type. -/
theorem readAsType_reference (lifetime : Option String) (isMut : Bool)
    (h : ReadAsType eof ps value) :
    ReadAsType eof (Piece.reference lifetime isMut ++ ps) value := by
  obtain ⟨hopens, hread⟩ := h
  refine ⟨fun _ _ => ⟨rfl, Kind.noConfusion⟩, fun rest hrest => ?_⟩
  rw [List.append_assoc]
  refine reads_reference eof lifetime isMut ?_ (hread rest hrest)
  rw [headKind_append (startsType_of_opensAsType hopens)]
  exact startsType_of_opensAsType hopens

/-- A slice is a sequence of its elements. -/
theorem readAsType_slice (h : ReadAsType eof ps value) :
    ReadAsType eof (mark .lbracket :: (ps ++ [mark .rbracket])) (.sequence value) := by
  refine ⟨fun _ _ => ⟨rfl, Kind.noConfusion⟩, fun rest _ => ?_⟩
  rw [Piece.enclosed_append]
  refine reads_sequence eof (h.2 _ ⟨Kind.noConfusion, Kind.noConfusion⟩) fun ts hts => ?_
  obtain ⟨t, us, rfl, hkind, -⟩ := exists_mark_of_piecesOf hts
  rwa [dropLength, if_neg (kind_ne_of_eq hkind Kind.noConfusion)]

/-- An array is read as a sequence, whatever its length. -/
theorem readAsType_array {length : List Piece} (hlength : Piece.isClosed 0 length)
    (h : ReadAsType eof ps value) :
    ReadAsType eof (mark .lbracket :: (ps ++ mark .semicolon :: (length ++ [mark .rbracket])))
      (.sequence value) := by
  refine ⟨fun _ _ => ⟨rfl, Kind.noConfusion⟩, fun rest _ => ?_⟩
  rw [List.cons_append, List.append_assoc, List.cons_append, List.append_assoc,
    List.singleton_append]
  refine reads_sequence eof (h.2 _ ⟨Kind.noConfusion, Kind.noConfusion⟩) fun ts hts => ?_
  obtain ⟨t, us, rfl, hkind, hus⟩ := exists_mark_of_piecesOf hts
  rw [dropLength, if_pos hkind]
  exact piecesOf_rawSpan_of_isClosed hlength hus

variable {α : Type} {write : α → List Piece} {read : α → TypeExpr} {as : List α}
  (hne : as ≠ []) (h : ∀ a ∈ as, ReadAsType eof (write a) (read a))
include hne h

/-- Types in parentheses are a tuple, if there is a comma or not exactly one of them. -/
theorem readAsType_tuple {trailing : Bool} (hone : trailing ∨ as.length ≠ 1) :
    ReadAsType eof (mark .lparen :: (Piece.separated write as ++
      (Piece.trailingComma trailing ++ [mark .rparen]))) (.tuple (as.map read)) := by
  refine ⟨fun _ _ => ⟨rfl, Kind.noConfusion⟩, fun rest _ => ?_⟩
  have hread := reads_parentheses eof (reads_elements eof hne h false trailing rest)
  have hmap : as.map read ≠ [] := fun hnil => hne (List.map_eq_nil_iff.1 hnil)
  rw [ofElements_of_ne hmap (by rwa [List.length_map])] at hread
  rw [List.cons_append, List.append_assoc, List.append_assoc, List.singleton_append]
  exact hread

/-- A name with arguments is read as what it is sorted as with these. -/
theorem readAsType_applied {name : String} (hname : verbatimWords.contains name = false) :
    ReadAsType eof (appliedPieces name (Piece.separated write as))
      (.classify name (as.map read)) :=
  ⟨fun _ _ => opensType_appliedPieces _ _ _, fun rest _ =>
    reads_applied eof hname (reads_arguments eof hne h rest)⟩

end Around

mutual

/-- **A plain type is read as what it stands for.** -/
theorem PlainType.readAsType_of_isWritable (t : PlainType) (h : t.isWritable) :
    ReadAsType eof t.pieces t.sorted := by
  cases t with
  | scalar name => exact readAsType_scalar eof h
  | unit => exact readAsType_unit eof
  | reference lifetime isMut target =>
    rw [PlainType.isWritable] at h
    exact readAsType_reference eof lifetime isMut (PlainType.readAsType_of_isWritable target h)
  | slice element =>
    rw [PlainType.isWritable] at h
    exact readAsType_slice eof (PlainType.readAsType_of_isWritable element h)
  | array element length =>
    rw [PlainType.isWritable, Bool.and_eq_true] at h
    exact readAsType_array eof h.2 (PlainType.readAsType_of_isWritable element h.1)
  | tuple elements trailing =>
    rw [PlainType.isWritable, Bool.and_eq_true, Bool.and_eq_true, Bool.not_eq_true',
      List.isEmpty_eq_false_iff, Bool.or_eq_true, bne_iff_ne] at h
    obtain ⟨⟨hne, htrailing⟩, helements⟩ := h
    rw [PlainType.pieces, PlainType.sorted, PlainType.piecesAll_eq_separated,
      PlainType.sortedAll_eq_map]
    exact readAsType_tuple eof hne (PlainType.readAsType_of_isWritableAll elements helements)
      htrailing
  | option inner =>
    rw [PlainType.isWritable] at h
    have hinner := PlainType.readAsType_of_isWritable inner h
    exact readAsType_applied eof (List.cons_ne_nil inner [])
      (List.forall_mem_singleton.2 hinner) rfl

/-- The members of a list are read. The induction is that on types. -/
theorem PlainType.readAsType_of_isWritableAll (ts : List PlainType)
    (h : PlainType.isWritableAll ts) : ∀ t ∈ ts, ReadAsType eof t.pieces t.sorted := by
  cases ts with
  | nil => exact fun t ht => absurd ht List.not_mem_nil
  | cons t ts =>
    rw [PlainType.isWritableAll, Bool.and_eq_true] at h
    exact List.forall_mem_cons.2
      ⟨PlainType.readAsType_of_isWritable t h.1, PlainType.readAsType_of_isWritableAll ts h.2⟩

end

end Reading

/-! ## Tokens of types -/

/-- The kinds of tokens that stand behind types in declarations and in other types. -/
def typeFollowers : List Kind :=
  [.comma, .gt, .rparen, .rbracket, .semicolon, .rbrace, .eq, .eof]

/-- What can follow a type goes on with none. -/
theorem endsType_of_mem_typeFollowers {rest : List Token} (h : headKind rest ∈ typeFollowers) :
    endsType (piecesOf rest) := by
  rw [endsType, ← headKind_of_piecesOf rfl]
  constructor <;> rintro heq <;> rw [heq] at h <;> revert h <;> decide

/-- What is read in front of tokens leaves these tokens, if it leaves as many pieces. -/
theorem exists_ok_of_reads {α : Type} {parser : (ts : List Token) → Result (Parsed α ts.length)}
    {eof : Token} {m : TokenCursor α} {ps : List Piece} {value : α} {ts rest : List Token}
    (hfollows : Follows eof m (ts ++ rest) (parser (ts ++ rest))) (hts : piecesOf ts = ps)
    (h : Reads parser (ps ++ piecesOf rest) value (piecesOf rest)) :
    ∃ r, parser (ts ++ rest) = .ok r ∧ r.value = value ∧ r.rest = rest := by
  have happend : piecesOf (ts ++ rest) = ps ++ piecesOf rest := by
    rw [← hts, piecesOf, List.map_append]
    rfl
  obtain ⟨r, hr, hvalue, hrest⟩ := h _ happend
  refine ⟨r, hr, hvalue, ?_⟩
  have hlength : r.rest.length = rest.length := by
    have hcount := congrArg List.length hrest
    simpa [piecesOf] using hcount
  exact (List.suffix_of_suffix_length_le (hfollows.suffix hr) (List.suffix_append ts rest)
    (Nat.le_of_eq hlength)).eq_of_length hlength

/-- Whether tokens are read as a type, in front of everything that follows a type in a declaration
or in another type. -/
def IsType (eof : Token) (ts : List Token) (value : TypeExpr) : Prop :=
  ∀ rest, headKind rest ∈ typeFollowers →
    ∃ r, parseType eof (ts ++ rest) = .ok r ∧ r.value = value ∧ r.rest = rest

/-- What is read as a type in front of any pieces is so in front of tokens. -/
theorem isType_of_readAsType (eof : Token) {ps : List Piece} {value : TypeExpr}
    (h : ReadAsType eof ps value) {ts : List Token} (hts : piecesOf ts = ps) :
    IsType eof ts value := fun rest hrest =>
  exists_ok_of_reads (Walk.follows_type _) hts
    (h.2 (piecesOf rest) (endsType_of_mem_typeFollowers hrest))

end Rust
end Ferrotype

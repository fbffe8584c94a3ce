/-
# Plain expressions

A plain expression is a literal: a number, a negated number, a truth value, a character, a byte, a
string or a byte string, an absent value, the unit, and references, arrays and tuples of such
expressions. A comma may stand behind the last element of an array or a tuple, and has to behind
the only element of a tuple.

`readAsExpr_of_isWritable` says what it is read as. Bytes are read as characters, since no token
says that a literal is one of bytes, and a tuple of one element is read as that element.
-/

import Ferrotype.Proofs.Rust.Canonical.Declaration
import Ferrotype.Proofs.Rust.Plain.Type

namespace Ferrotype
namespace Rust

open Piece (mark)

/-! ## Spelling -/

/-- A literal expression. -/
inductive PlainExpr
  | number (negative : Bool) (text : String)
  | bool (value : Bool)
  /-- A character or a byte, by the text of its token, in which nothing says which of them it is. -/
  | char (isByte : Bool) (text : String)
  /-- A string or a byte string, in the same way. -/
  | string (isBytes : Bool) (text : String)
  /-- The absent value, by its path. -/
  | absent (path : List String)
  | unit
  | reference (operand : PlainExpr)
  /-- An array, and whether a comma stands behind its last element. -/
  | array (elements : List PlainExpr) (trailing : Bool)
  /-- A tuple, and whether a comma stands behind its last element. -/
  | tuple (elements : List PlainExpr) (trailing : Bool)

/-- The paths of the absent value. -/
def absentPaths : List (List String) :=
  [["None"], ["Option", "None"], ["std", "option", "Option", "None"],
    ["core", "option", "Option", "None"]]

/-- The text that a literal stands for. -/
def denoted (text : String) : String := (unquote text).toOption.getD ""

/-- The word for a truth value. -/
def truthWord (value : Bool) : String := if value then "true" else "false"

namespace PlainExpr

mutual

/-- The pieces of an expression. -/
def pieces : PlainExpr → List Piece
  | number negative text => (if negative then [mark .minus] else []) ++ [⟨.number, text⟩]
  | bool value => [literalPiece (truthWord value) .bool]
  | char _ text => [⟨.char, text⟩]
  | string _ text => [⟨.string, text⟩]
  | absent path => Piece.path path
  | unit => [mark .lparen, mark .rparen]
  | reference operand => ⟨.ampersand, "&"⟩ :: operand.pieces
  | array elements trailing =>
    mark .lbracket :: (piecesAll elements ++ (Piece.trailingComma trailing ++ [mark .rbracket]))
  | tuple elements trailing =>
    mark .lparen :: (piecesAll elements ++ (Piece.trailingComma trailing ++ [mark .rparen]))

/-- The pieces of expressions with commas between them. -/
def piecesAll : List PlainExpr → List Piece
  | [] => []
  | [e] => e.pieces
  | e :: f :: fs => e.pieces ++ mark .comma :: piecesAll (f :: fs)

end

mutual

/-- Whether an expression is spelled as the grammar asks for. -/
def isWritable : PlainExpr → Bool
  | number _ _ => true
  | bool _ => true
  | char _ text => (unquote text).isOk
  | string _ text => (unquote text).isOk
  | absent path => absentPaths.contains path
  | unit => true
  | reference operand => operand.isWritable
  | array elements trailing => !(trailing && elements.isEmpty) && isWritableAll elements
  | tuple elements trailing =>
    !elements.isEmpty && (trailing || elements.length != 1) && isWritableAll elements

/-- Whether expressions are spelled as the grammar asks for. -/
def isWritableAll : List PlainExpr → Bool
  | [] => true
  | e :: es => e.isWritable && isWritableAll es

end

mutual

/-- What an expression is read as. -/
def read : PlainExpr → Expr
  | number negative text =>
    if negative then .unary "-" (.literal text .number) else .literal text .number
  | bool value => .literal (truthWord value) .bool
  | char _ text => .literal (denoted text) .char
  | string _ text => .literal (denoted text) .string
  | absent path => .raw (pathText path)
  | unit => .tuple []
  | reference operand => operand.read
  | array elements _ => .array (readAll elements)
  | tuple elements _ => ofParenthesized (readAll elements)

/-- What expressions are read as. -/
def readAll : List PlainExpr → List Expr
  | [] => []
  | e :: es => e.read :: readAll es

end

/-- The tokens of a list are those of its members with commas between them. -/
theorem piecesAll_eq_separated (es : List PlainExpr) :
    piecesAll es = Piece.separated pieces es := by
  fun_induction Piece.separated pieces es with
  | case1 => rfl
  | case2 e => rfl
  | case3 e f fs ih => rw [piecesAll, ih]

/-- The members of a list are read one by one. -/
theorem readAll_eq_map (es : List PlainExpr) : readAll es = es.map read := by
  induction es with
  | nil => rfl
  | cons e es ih => rw [readAll, ih, List.map_cons]

end PlainExpr

/-! ## Reading -/

/-- A text that can be read is read as what it denotes. -/
theorem unquote_eq_denoted {text : String} (h : (unquote text).isOk) :
    unquote text = .ok (denoted text) := by
  rw [denoted]
  cases hunquote : unquote text with
  | error e =>
    rw [hunquote] at h
    cases h
  | ok s => rfl

/-- The tokens of an expression that is kept as text, up to what ends it. -/
theorem rawSpan_of_piecesOf {stops : Kind → Bool} {ps rest : List Piece} {ts : List Token}
    (hts : piecesOf ts = ps ++ rest)
    (hps : ∀ p ∈ ps, stops p.kind = false ∧ p.kind.opens = false ∧ p.kind.closes = false)
    (hrest : stops (Piece.headKind rest) ∨ (Piece.headKind rest).closes) :
    (rawSpan stops 0 ts).1.map (·.text) = ps.map (·.text) ∧
      piecesOf (rawSpan stops 0 ts).2 = rest := by
  induction ps generalizing ts with
  | nil =>
    rw [List.nil_append] at hts
    cases ts with
    | nil => exact ⟨rfl, hts⟩
    | cons t ts =>
      rw [← headKind_of_piecesOf hts] at hrest
      rw [rawSpan, if_pos ⟨rfl, hrest⟩]
      exact ⟨rfl, hts⟩
  | cons p ps ih =>
    obtain ⟨t, us, rfl, hkind, htext, hus⟩ := exists_cons_of_piecesOf hts
    obtain ⟨⟨hstops, hopens, hcloses⟩, hps⟩ := List.forall_mem_cons.1 hps
    obtain ⟨htexts, hleft⟩ := ih hus hps
    rw [← hkind] at hstops hopens hcloses
    rw [rawSpan, if_neg (by simp [hstops, hcloses])]
    simp only [hopens, hcloses, Bool.false_eq_true, if_false, List.map_cons, htext, htexts]
    exact ⟨trivial, hleft⟩

/-- A literal in quotes stands for the text between them. -/
theorem literalExpr_of_unquote {kind : LiteralKind} (hkind : kind = .string ∨ kind = .char)
    {t : Token} {text : String} (htext : t.text = text) (h : (unquote text).isOk) :
    literalExpr t kind = .ok (.literal (denoted text) kind) := by
  rcases hkind with rfl | rfl <;> rw [literalExpr, literalText, htext, unquote_eq_denoted h] <;> rfl

section Reading

variable (eof : Token)

/-- What starts no other form of an expression is kept as text. -/
theorem parseExpr_of_identifier {t : Token} (ts : List Token) (h : t.kind = .identifier) :
    parseExpr eof (t :: ts) = .ok (rawExpr (t :: ts)) := by
  have hliteral : literalKind? t.kind = none := by
    rw [h]
    rfl
  rw [parseExpr, if_neg (kind_ne_of_eq h Kind.noConfusion),
    if_neg (kind_ne_of_eq h Kind.noConfusion)]
  simp only [hliteral]
  rw [if_neg (kind_ne_of_eq h Kind.noConfusion), if_neg (kind_ne_of_eq h Kind.noConfusion)]

/-- The path of the absent value is kept as text. -/
theorem readAsExpr_absent {path : List String} (h : absentPaths.contains path) :
    ReadAsExpr eof (Piece.path path) (.raw (pathText path)) := by
  have hpaths : ∀ path ∈ absentPaths, Piece.headKind (Piece.path path) = .identifier ∧
      (∀ p ∈ Piece.path path,
        endsRaw p.kind = false ∧ p.kind.opens = false ∧ p.kind.closes = false) ∧
      joinTokens ((Piece.path path).map (·.text)) = pathText path := by decide
  obtain ⟨hhead, hkinds, htext⟩ := hpaths path (List.contains_iff_mem.1 h)
  cases hpieces : Piece.path path with
  | nil =>
    rw [hpieces] at hhead
    cases hhead
  | cons p ps =>
    rw [hpieces] at hhead hkinds htext
    refine ⟨by rw [hhead]; rfl, List.cons_ne_nil _ _, fun rest hrest ts hts => ?_⟩
    obtain ⟨htexts, hleft⟩ := rawSpan_of_piecesOf hts hkinds hrest
    obtain ⟨t, us, rfl, hkind, -, -⟩ := exists_cons_of_piecesOf hts
    refine ⟨_, parseExpr_of_identifier eof us (hkind.trans hhead), ?_, hleft⟩
    rw [← htext, ← htexts]
    rfl

/-- A reference is read as what it refers to. -/
theorem reads_ampersand {ps rest : List Piece} {value : Expr}
    (h : Reads (parseExpr eof) ps value rest) :
    Reads (parseExpr eof) (⟨.ampersand, "&"⟩ :: ps) value rest := by
  intro ts hts
  obtain ⟨t, us, rfl, hkind, -, hus⟩ := exists_cons_of_piecesOf hts
  obtain ⟨r, hr, hvalue, hrest⟩ := h us hus
  rw [parseExpr, if_pos hkind, hr]
  exact ⟨_, rfl, hvalue, hrest⟩

mutual

/-- **A plain expression is read as what it stands for**, but for bytes and tuples of one
element. -/
theorem PlainExpr.readAsExpr_of_isWritable (e : PlainExpr) (h : e.isWritable) :
    ReadAsExpr eof e.pieces e.read := by
  cases e with
  | number negative text =>
    have hread (rest : List Piece) : Reads (parseExpr eof) (⟨.number, text⟩ :: rest)
        (.literal text .number) rest :=
      Expr.isRead_literal eof (show isLiteral text .number from rfl) rest
    cases negative with
    | false => exact ⟨rfl, List.cons_ne_nil _ _, fun rest _ => hread rest⟩
    | true => exact ⟨rfl, List.cons_ne_nil _ _, fun rest _ => reads_minus eof (hread rest)⟩
  | bool value =>
    have hliteral : isLiteral (truthWord value) .bool := by cases value <;> rfl
    refine ⟨by cases value <;> rfl, List.cons_ne_nil _ _, fun rest _ => ?_⟩
    exact Expr.isRead_literal eof hliteral rest
  | char isByte text =>
    refine ⟨rfl, List.cons_ne_nil _ _, fun rest _ => reads_literal eof rfl (fun t ht => ?_) rest⟩
    exact literalExpr_of_unquote (.inr rfl) ht h
  | string isBytes text =>
    refine ⟨rfl, List.cons_ne_nil _ _, fun rest _ => reads_literal eof rfl (fun t ht => ?_) rest⟩
    exact literalExpr_of_unquote (.inl rfl) ht h
  | absent path => exact readAsExpr_absent eof h
  | unit =>
    refine ⟨rfl, List.cons_ne_nil _ _, fun rest _ => ?_⟩
    have hempty := reads_list eof (.parentheses rfl) (readsList_nil eof .rparen rest)
    exact hempty
  | reference operand =>
    rw [PlainExpr.isWritable] at h
    refine ⟨rfl, List.cons_ne_nil _ _, fun rest hrest => reads_ampersand eof ?_⟩
    exact (PlainExpr.readAsExpr_of_isWritable operand h).2.2 rest hrest
  | array elements trailing =>
    rw [PlainExpr.isWritable, Bool.and_eq_true, Bool.not_eq_true', Bool.and_eq_false_iff] at h
    obtain ⟨htrailing, helements⟩ := h
    have hne (hcomma : trailing) : elements ≠ [] := by
      refine List.isEmpty_eq_false_iff.1 (htrailing.resolve_left ?_)
      rw [hcomma]
      exact Bool.noConfusion
    refine ⟨rfl, List.cons_ne_nil _ _, fun rest _ => ?_⟩
    rw [PlainExpr.pieces, PlainExpr.read, PlainExpr.piecesAll_eq_separated,
      PlainExpr.readAll_eq_map, List.cons_append, List.append_assoc, List.append_assoc,
      List.singleton_append]
    exact reads_list eof (.array rfl)
      (readsList eof rfl (PlainExpr.readAsExpr_of_isWritableAll elements helements) hne rest)
  | tuple elements trailing =>
    rw [PlainExpr.isWritable, Bool.and_eq_true, Bool.and_eq_true, Bool.not_eq_true',
      List.isEmpty_eq_false_iff] at h
    obtain ⟨⟨hne, -⟩, helements⟩ := h
    refine ⟨rfl, List.cons_ne_nil _ _, fun rest _ => ?_⟩
    rw [PlainExpr.pieces, PlainExpr.read, PlainExpr.piecesAll_eq_separated,
      PlainExpr.readAll_eq_map, List.cons_append, List.append_assoc, List.append_assoc,
      List.singleton_append]
    exact reads_list eof (.parentheses rfl) (readsList eof rfl
      (PlainExpr.readAsExpr_of_isWritableAll elements helements) (fun _ => hne) rest)

/-- The members of a list are read. The induction is that on expressions. -/
theorem PlainExpr.readAsExpr_of_isWritableAll (es : List PlainExpr)
    (h : PlainExpr.isWritableAll es) : ∀ e ∈ es, ReadAsExpr eof e.pieces e.read := by
  cases es with
  | nil => exact fun e he => absurd he List.not_mem_nil
  | cons e es =>
    rw [PlainExpr.isWritableAll, Bool.and_eq_true] at h
    exact List.forall_mem_cons.2
      ⟨PlainExpr.readAsExpr_of_isWritable e h.1, PlainExpr.readAsExpr_of_isWritableAll es h.2⟩

end

end Reading

/-! ## Constants -/

/-- The pieces of a constant behind its keyword. -/
def plainConstPieces (name : String) (t : PlainType) (e : PlainExpr) : List Piece :=
  Piece.name name :: mark .colon :: (t.pieces ++ mark .eq :: (e.pieces ++ [mark .semicolon]))

/-- The constant that is read from these pieces. -/
def plainConst (p : Preamble) (name : String) (t : PlainType) (e : PlainExpr) : Item :=
  ⟨name, [], p, .const t.sorted (some e.read)⟩

/-- A constant is read behind its keyword. -/
theorem reads_plainConst (eof : Token) (p : Preamble) (name : String) {t : PlainType}
    {e : PlainExpr} (ht : t.isWritable) (he : e.isWritable) (rest : List Piece) :
    Reads (parseConst eof p) (plainConstPieces name t e ++ rest) (plainConst p name t e) rest := by
  have htype := (PlainType.readAsType_of_isWritable eof t ht).2
    (mark .eq :: (e.pieces ++ mark .semicolon :: rest)) ⟨Kind.noConfusion, Kind.noConfusion⟩
  have hvalue := (PlainExpr.readAsExpr_of_isWritable eof e he).2.2
    (mark .semicolon :: rest) (.inl rfl)
  rw [plainConstPieces, List.cons_append, List.cons_append, List.append_assoc, List.cons_append,
    List.append_assoc, List.singleton_append]
  exact reads_const eof p name htype (reads_initializer eof hvalue)

end Rust
end Ferrotype

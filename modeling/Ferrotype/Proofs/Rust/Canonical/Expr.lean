/-
# Spelling constant expressions

In canonical form a literal stands as one piece, a negated number behind a minus, and the elements
of an array or a tuple stand between brackets with commas between them. A tuple has any number of
elements but one, since parentheses around one expression leave no trace.

`isRead_of_isWritable` says that such an expression is read back, whatever follows. It does not ask
whether its numbers are numerals; `legible_pieces` does.
-/

import Ferrotype.Proofs.Rust.Canonical.Literal
import Ferrotype.Proofs.Rust.Canonical.Reads
import Ferrotype.Proofs.Rust.Parse.Number

namespace Ferrotype
namespace Rust

open Piece (mark)

/-! ## Spelling -/

/-- The piece of a literal. -/
def literalPiece (text : String) : LiteralKind → Piece
  | .string => .string text
  | .char => .char text
  | .number => ⟨.number, text⟩
  | .bool => ⟨Kind.ofWord text.toList, text⟩
  | .other => ⟨.other, text⟩

/-- Whether a text can be that of a literal. A number can be any text here. -/
def isLiteral (text : String) : LiteralKind → Bool
  | .string => true
  | .char => text.toList.length == 1
  | .number => true
  | .bool => text == "true" || text == "false"
  | .other => false

namespace Expr

mutual

/-- The pieces of an expression in canonical form. -/
def pieces : Expr → List Piece
  | literal text kind => [literalPiece text kind]
  | unary _ operand => mark .minus :: operand.pieces
  | array elements => mark .lbracket :: (piecesAll elements ++ [mark .rbracket])
  | tuple elements => mark .lparen :: (piecesAll elements ++ [mark .rparen])
  | raw _ => []
  | unknown _ => []

/-- The pieces of expressions with commas between them. -/
def piecesAll : List Expr → List Piece
  | [] => []
  | [e] => e.pieces
  | e :: f :: fs => e.pieces ++ mark .comma :: piecesAll (f :: fs)

end

mutual

/-- Whether an expression has a canonical form. -/
def isWritable : Expr → Bool
  | literal text kind => isLiteral text kind
  | unary operator (literal _ kind) => operator == "-" && kind == .number
  | unary _ _ => false
  | array elements => isWritableAll elements
  | tuple elements => elements.length != 1 && isWritableAll elements
  | raw _ => false
  | unknown _ => false

/-- Whether expressions have a canonical form. -/
def isWritableAll : List Expr → Bool
  | [] => true
  | e :: es => e.isWritable && isWritableAll es

end

end Expr

/-! ## Reading -/

section Reading

variable (eof : Token)

/-- Whether an expression is read back, whatever follows. -/
def Expr.IsRead (e : Expr) : Prop :=
  ∀ rest, Reads (parseExpr eof) (e.pieces ++ rest) e rest

/-- The token of a literal has a kind of literal, namely its own. -/
theorem literalKind?_literalPiece {text : String} {kind : LiteralKind} (h : isLiteral text kind) :
    literalKind? (literalPiece text kind).kind = some kind := by
  cases kind with
  | string => rfl
  | char => rfl
  | number => rfl
  | bool =>
    rw [isLiteral, Bool.or_eq_true, beq_iff_eq, beq_iff_eq] at h
    rcases h with rfl | rfl <;> rfl
  | other => cases h

/-- The token of a literal stands for it. -/
theorem literalExpr_literalPiece {t : Token} {text : String} {kind : LiteralKind}
    (htext : t.text = (literalPiece text kind).text) :
    literalExpr t kind = .ok (.literal text kind) := by
  cases kind with
  | string =>
    rw [literalExpr, literalText, htext, literalPiece, Piece.string, unquote_quoted (.inl rfl)]
    rfl
  | char =>
    rw [literalExpr, literalText, htext, literalPiece, Piece.char, unquote_quoted (.inr rfl)]
    rfl
  | number => exact congrArg (fun s => Except.ok (Expr.literal s .number)) htext
  | bool => exact congrArg (fun s => Except.ok (Expr.literal s .bool)) htext
  | other => exact congrArg (fun s => Except.ok (Expr.literal s .other)) htext

/-- The piece of a literal is read as what its text stands for. -/
theorem reads_literal {p : Piece} {kind : LiteralKind} {value : Expr}
    (hkind : literalKind? p.kind = some kind)
    (hvalue : ∀ t : Token, t.text = p.text → literalExpr t kind = .ok value) (rest : List Piece) :
    Reads (parseExpr eof) (p :: rest) value rest := by
  intro ts hts
  obtain ⟨t, us, rfl, ht, htext, hus⟩ := exists_cons_of_piecesOf hts
  have hliteral : literalKind? t.kind = some kind := ht ▸ hkind
  have hkinds {kind' : Kind} (hkind' : literalKind? kind' = none) : ¬ t.kind = kind' := by
    rintro rfl
    rw [hkind'] at hliteral
    cases hliteral
  rw [parseExpr, if_neg (hkinds rfl), if_neg (hkinds rfl)]
  simp only [hliteral, hvalue t htext]
  exact ⟨_, rfl, rfl, hus⟩

/-- Literals are read back. -/
theorem Expr.isRead_literal {text : String} {kind : LiteralKind} (h : isLiteral text kind) :
    (Expr.literal text kind).IsRead eof :=
  reads_literal eof (literalKind?_literalPiece h) fun _ => literalExpr_literalPiece

/-- A negated expression is read back if its operand is. -/
theorem reads_minus {ps rest : List Piece} {operand : Expr}
    (h : Reads (parseExpr eof) ps operand rest) :
    Reads (parseExpr eof) (mark .minus :: ps) (.unary "-" operand) rest := by
  intro ts hts
  obtain ⟨t, us, rfl, hkind, hus⟩ := exists_mark_of_piecesOf hts
  obtain ⟨r, hr, hvalue, hrest⟩ := h us hus
  rw [parseExpr, if_neg (kind_ne_of_eq hkind Kind.noConfusion), if_pos hkind, hr]
  refine ⟨_, rfl, ?_, hrest⟩
  rw [Parsed.value_later, Parsed.value_map, hvalue]

/-! ## Lists of expressions -/

/-- What a list of expressions gives for all tokens with certain pieces. -/
def ReadsList (closer : Kind) (ps : List Piece) (values : List Expr) (rest : List Piece) : Prop :=
  ∀ ts, piecesOf ts = ps →
    ∃ r, parseList eof closer ts = .ok (some r) ∧ r.value = values ∧ piecesOf r.rest = rest

/-- An empty list ends with its closing token. -/
theorem readsList_nil (closer : Kind) (rest : List Piece) :
    ReadsList eof closer (mark closer :: rest) [] rest := by
  intro ts hts
  obtain ⟨t, us, rfl, hkind, hus⟩ := exists_mark_of_piecesOf hts
  rw [parseList, if_pos hkind]
  exact ⟨_, rfl, rfl, hus⟩

section Lists

variable {closer : Kind} {ps qs rest : List Piece} {v : Expr} {vs : List Expr}
  (hne : Piece.headKind ps ≠ closer)
include hne

/-- The last expression of a list stands in front of the closing token. -/
theorem readsList_last (hps : ps ≠ []) (hcloser : closer ≠ .comma)
    (h : Reads (parseExpr eof) ps v (mark closer :: rest)) :
    ReadsList eof closer ps [v] rest := by
  intro ts hts
  obtain ⟨u, us, hshorter, hr, hu, hus⟩ := h.exists_of_mark hts
  cases ts with
  | nil => exact absurd hts.symm hps
  | cons t ts =>
    have hkind : t.kind ≠ closer := by rwa [← headKind_cons t ts, headKind_of_piecesOf hts]
    rw [parseList, if_neg hkind, hr]
    simp only [bind, Except.bind]
    rw [if_neg (kind_ne_of_eq hu hcloser), if_pos hu]
    exact ⟨_, rfl, rfl, hus⟩

/-- Any other one stands in front of a comma and the rest of the list. -/
theorem readsList_cons (hps : ps ≠ []) (h : Reads (parseExpr eof) ps v (mark .comma :: qs))
    (hmore : ReadsList eof closer qs vs rest) : ReadsList eof closer ps (v :: vs) rest := by
  intro ts hts
  obtain ⟨u, us, hshorter, hr, hu, hus⟩ := h.exists_of_mark hts
  obtain ⟨more, hread, hvalues, hend⟩ := hmore us hus
  cases ts with
  | nil => exact absurd hts.symm hps
  | cons t ts =>
    have hkind : t.kind ≠ closer := by rwa [← headKind_cons t ts, headKind_of_piecesOf hts]
    rw [parseList, if_neg hkind, hr]
    simp only [bind, Except.bind]
    rw [if_pos hu, hread]
    refine ⟨_, rfl, ?_, hend⟩
    rw [Parsed.value_widen, Parsed.value_later, Parsed.value_map, hvalues]

end Lists

/-- Brackets stand for the list that is read between them. -/
theorem reads_list {opener closer : Kind} {node : List Expr → Expr} {ps rest : List Piece}
    {elements : List Expr} (hencloses : Encloses opener closer node)
    (h : ReadsList eof closer ps elements rest) :
    Reads (parseExpr eof) (mark opener :: ps) (node elements) rest := by
  intro ts hts
  obtain ⟨t, us, rfl, rfl, hus⟩ := exists_mark_of_piecesOf hts
  obtain ⟨r, hr, hvalue, hrest⟩ := h us hus
  rw [parseExpr_of_encloses hencloses, hr]
  refine ⟨_, rfl, ?_, hrest⟩
  rw [Parsed.value_later, Parsed.value_later, Parsed.value_map, hvalue]

/-- Any number of expressions in parentheses but one make up a tuple. -/
theorem ofParenthesized_of_length_ne {elements : List Expr} (h : elements.length ≠ 1) :
    ofParenthesized elements = .tuple elements := by
  fun_cases ofParenthesized elements with
  | case1 e => exact absurd rfl h
  | case2 => rfl

/-- An expression in canonical form starts with no bracket that closes. -/
theorem Expr.exists_cons_pieces {e : Expr} (h : e.isWritable) :
    ∃ p ps, e.pieces = p :: ps ∧ p.kind.closes = false := by
  cases e with
  | literal text kind =>
    refine ⟨_, _, rfl, ?_⟩
    have hliteral := literalKind?_literalPiece h
    cases hkind : (literalPiece text kind).kind <;> rw [hkind] at hliteral <;>
      first | rfl | cases hliteral
  | unary operator operand => exact ⟨_, _, rfl, rfl⟩
  | array elements => exact ⟨_, _, rfl, rfl⟩
  | tuple elements => exact ⟨_, _, rfl, rfl⟩
  | raw text => cases h
  | unknown label => cases h

/-- Whether an expression that is kept as text ends in front of pieces. -/
def endsExpr (ps : List Piece) : Prop :=
  endsRaw (Piece.headKind ps) ∨ (Piece.headKind ps).closes

/-- Whether pieces start like an expression and are read as it. -/
def ReadAsExpr (ps : List Piece) (value : Expr) : Prop :=
  (Piece.headKind ps).closes = false ∧ ps ≠ [] ∧
    ∀ rest, endsExpr rest → Reads (parseExpr eof) (ps ++ rest) value rest

/-- Expressions between brackets are read one after the other, with or without a comma behind the
last one. -/
theorem readsList {α : Type} {write : α → List Piece} {value : α → Expr} {closer : Kind}
    (hcloses : closer.closes) {as : List α} (h : ∀ a ∈ as, ReadAsExpr eof (write a) (value a))
    {trailing : Bool} (htrailing : trailing → as ≠ []) (rest : List Piece) :
    ReadsList eof closer (Piece.separated write as ++
      ((if trailing then [mark .comma] else []) ++ mark closer :: rest)) (as.map value) rest := by
  have hcomma : closer ≠ .comma := by
    rintro rfl
    cases hcloses
  induction as with
  | nil =>
    cases trailing with
    | false => exact readsList_nil eof closer rest
    | true => exact absurd rfl (htrailing rfl)
  | cons a as ih =>
    obtain ⟨⟨hopens, hne, hread⟩, has⟩ := List.forall_mem_cons.1 h
    have hhead (qs : List Piece) : Piece.headKind (write a ++ qs) ≠ closer := by
      cases hpieces : write a with
      | nil => exact absurd hpieces hne
      | cons p ps =>
        rw [hpieces, Piece.headKind_cons] at hopens
        rintro rfl
        rw [List.cons_append, Piece.headKind_cons, hopens] at hcloses
        cases hcloses
    have happend (qs : List Piece) : write a ++ qs ≠ [] := List.append_ne_nil_of_left_ne_nil hne qs
    cases as with
    | nil =>
      cases trailing with
      | false =>
        exact readsList_last eof (hhead _) (happend _) hcomma (hread _ (.inr hcloses))
      | true =>
        exact readsList_cons eof (hhead _) (happend _) (hread _ (.inl rfl))
          (readsList_nil eof closer rest)
    | cons b bs =>
      rw [Piece.separated, List.append_assoc, List.cons_append]
      exact readsList_cons eof (hhead _) (happend _) (hread _ (.inl rfl))
        (ih has fun _ => List.cons_ne_nil _ _)

/-- The tokens of a list are those of its members with commas between them. -/
theorem Expr.piecesAll_eq_separated (es : List Expr) :
    Expr.piecesAll es = Piece.separated Expr.pieces es := by
  fun_induction Piece.separated Expr.pieces es with
  | case1 => rfl
  | case2 e => rfl
  | case3 e f fs ih => rw [Expr.piecesAll, ih]

/-- Lists are read back if their members are. -/
theorem readsList_of_isRead {closer : Kind} (hcloses : closer.closes) {es : List Expr}
    (h : ∀ e ∈ es, e.isWritable ∧ e.IsRead eof) (rest : List Piece) :
    ReadsList eof closer (Expr.piecesAll es ++ mark closer :: rest) es rest := by
  have hread (e : Expr) (he : e ∈ es) : ReadAsExpr eof e.pieces (id e) := by
    obtain ⟨hwritable, hread⟩ := h e he
    obtain ⟨p, ps, hpieces, hp⟩ := Expr.exists_cons_pieces hwritable
    refine ⟨?_, ?_, fun rest _ => hread rest⟩
    · rwa [hpieces]
    · rw [hpieces]
      exact List.cons_ne_nil _ _
  have hlist := readsList eof hcloses hread (fun h => absurd h Bool.false_ne_true) rest
  rwa [List.map_id, ← Expr.piecesAll_eq_separated] at hlist

mutual

/-- **An expression in canonical form is read back.** -/
theorem Expr.isRead_of_isWritable (e : Expr) (h : e.isWritable) : e.IsRead eof := by
  match e with
  | .literal text kind => exact Expr.isRead_literal eof h
  | .unary operator (.literal text kind) =>
    rw [Expr.isWritable, Bool.and_eq_true, beq_iff_eq, beq_iff_eq] at h
    obtain ⟨rfl, rfl⟩ := h
    exact fun rest => reads_minus eof (Expr.isRead_literal eof rfl rest)
  | .array elements =>
    intro rest
    rw [Expr.isWritable] at h
    rw [Expr.pieces, Piece.enclosed_append]
    exact reads_list eof (.array rfl)
      (readsList_of_isRead eof rfl (Expr.isRead_of_isWritableAll _ h) rest)
  | .tuple elements =>
    intro rest
    rw [Expr.isWritable, Bool.and_eq_true, bne_iff_ne] at h
    rw [Expr.pieces, Piece.enclosed_append, ← ofParenthesized_of_length_ne h.1]
    exact reads_list eof (.parentheses rfl)
      (readsList_of_isRead eof rfl (Expr.isRead_of_isWritableAll _ h.2) rest)

/-- The members of a list are read back. The induction is that on expressions. -/
theorem Expr.isRead_of_isWritableAll (es : List Expr) (h : Expr.isWritableAll es) :
    ∀ e ∈ es, e.isWritable ∧ e.IsRead eof := by
  cases es with
  | nil => exact fun e he => absurd he List.not_mem_nil
  | cons e es =>
    rw [Expr.isWritableAll, Bool.and_eq_true] at h
    exact List.forall_mem_cons.2
      ⟨⟨h.1, Expr.isRead_of_isWritable e h.1⟩, Expr.isRead_of_isWritableAll es h.2⟩

end

end Reading

/-! ## Expressions in canonical form are legible -/

/-- A literal is legible; a number is if it is a numeral. -/
theorem legible_literalPiece {text : String} {kind : LiteralKind} (h : isLiteral text kind)
    (hnumber : kind = .number → isNumeral text.toList) : (literalPiece text kind).Legible := by
  cases kind with
  | string => exact Piece.legible_string text
  | char =>
    obtain ⟨c, hc⟩ := List.length_eq_one_iff.1 (beq_iff_eq.1 h)
    exact Piece.legible_char hc
  | number => exact Piece.legible_of_isNumeral (hnumber rfl)
  | bool =>
    rw [isLiteral, Bool.or_eq_true, beq_iff_eq, beq_iff_eq] at h
    refine Piece.legible_of_isWord ?_
    rcases h with rfl | rfl <;> decide
  | other => cases h

mutual

/-- The tokens of an expression are legible if its numbers are numerals. -/
theorem Expr.legible_pieces (e : Expr) (h : e.isWritable)
    (hnumbers : ∀ text ∈ e.numbers, isNumeral text.toList) : ∀ p ∈ e.pieces, p.Legible := by
  match e with
  | .literal text kind =>
    rw [Expr.pieces, List.forall_mem_singleton]
    refine legible_literalPiece h fun hkind => hnumbers text ?_
    rw [Expr.numbers, if_pos hkind]
    exact List.mem_singleton_self text
  | .unary operator (.literal text kind) =>
    rw [Expr.isWritable, Bool.and_eq_true, beq_iff_eq, beq_iff_eq] at h
    obtain ⟨-, rfl⟩ := h
    rw [Expr.pieces, Expr.pieces, List.forall_mem_cons, List.forall_mem_singleton]
    refine ⟨Piece.legible_mark (by decide), Piece.legible_of_isNumeral (hnumbers text ?_)⟩
    rw [Expr.numbers, Expr.numbers, if_pos rfl]
    exact List.mem_singleton_self text
  | .array elements =>
    rw [Expr.isWritable] at h
    rw [Expr.numbers] at hnumbers
    rw [Expr.pieces]
    exact Piece.legible_enclosed (by decide) (by decide)
      (Expr.legible_piecesAll elements h hnumbers)
  | .tuple elements =>
    rw [Expr.isWritable, Bool.and_eq_true] at h
    rw [Expr.numbers] at hnumbers
    rw [Expr.pieces]
    exact Piece.legible_enclosed (by decide) (by decide)
      (Expr.legible_piecesAll elements h.2 hnumbers)

/-- The same of the members of a list. -/
theorem Expr.legible_piecesAll (es : List Expr) (h : Expr.isWritableAll es)
    (hnumbers : ∀ text ∈ Expr.numbersAll es, isNumeral text.toList) :
    ∀ p ∈ Expr.piecesAll es, p.Legible := by
  match es with
  | [] => exact List.forall_mem_nil _
  | [e] =>
    rw [Expr.isWritableAll, Bool.and_eq_true] at h
    rw [Expr.numbersAll, List.forall_mem_append] at hnumbers
    exact Expr.legible_pieces e h.1 hnumbers.1
  | e :: f :: fs =>
    rw [Expr.isWritableAll, Bool.and_eq_true] at h
    rw [Expr.numbersAll, List.forall_mem_append] at hnumbers
    rw [Expr.piecesAll, List.forall_mem_append, List.forall_mem_cons]
    exact ⟨Expr.legible_pieces e h.1 hnumbers.1, Piece.legible_mark (by decide),
      Expr.legible_piecesAll (f :: fs) h.2 hnumbers.2⟩

end

end Rust
end Ferrotype

/-
# Texts that are cut into given pieces

`CutInto cs ps` says that a text is cut into certain pieces whatever follows it. Such texts can be
put together (`CutInto.append`): a source that is not in canonical form is then cut by its parts.
Layout is cut into nothing, a legible piece in canonical form into itself, and punctuation that
opens no pair and a word in front of something else need no blank behind them.
-/

import Ferrotype.Proofs.Rust.Canonical.Reads

namespace Ferrotype
namespace Rust

/-- A text that is cut into pieces, whatever follows it. -/
def CutInto (cs : List Char) (ps : List Piece) : Prop :=
  ∀ rest, (lexemes (cs ++ rest)).flatMap Lexeme.pieces =
    ps ++ (lexemes rest).flatMap Lexeme.pieces

namespace CutInto

/-- No characters give no pieces. -/
theorem nil : CutInto [] [] := fun _ => rfl

/-- Texts that are cut are cut one behind the other. -/
theorem append {cs ds : List Char} {ps qs : List Piece} (hcs : CutInto cs ps)
    (hds : CutInto ds qs) : CutInto (cs ++ ds) (ps ++ qs) := by
  intro rest
  rw [List.append_assoc, hcs, hds, List.append_assoc]

/-- The tokens of a source that is cut into pieces. -/
theorem piecesOf_tokenize {source : String} {ps : List Piece} (h : CutInto source.toList ps) :
    piecesOf (tokenize source).tokens = ps := by
  have hall := h []
  rw [List.append_nil, lexemes_nil, List.flatMap_nil, List.append_nil] at hall
  rw [piecesOf, tokenize, TokenStream.pieces_ofLexemes, hall]

/-! ## The parts of a source -/

/-- Layout gives no pieces. -/
theorem layout {cs : List Char} (h : ∀ c ∈ cs, Lexeme.isLayout c) : CutInto cs [] :=
  pieces_lexemes_layouts h

/-- What is read as one lexeme in front of anything is cut into its piece. -/
theorem of_first? {cs : List Char} {p : Piece}
    (h : ∀ rest, ∃ lexeme, Lexeme.first? (cs ++ rest) = some (lexeme, rest) ∧
      lexeme.pieces = [p]) : CutInto cs [p] := by
  intro rest
  obtain ⟨lexeme, hfirst, hpieces⟩ := h rest
  rw [lexemes_of_first? hfirst, List.flatMap_cons, hpieces]

/-- The spelling of a legible piece is cut into it. -/
theorem spelling {p : Piece} (h : p.Legible) : CutInto p.spelling [p] := by
  intro rest
  obtain ⟨lexeme, blank, hfirst, hblank, hpieces⟩ := h rest
  rw [lexemes_of_first? hfirst, List.flatMap_cons, hpieces, pieces_lexemes_layout hblank]

/-- The punctuation that is no part of a pair. -/
def loneMarks : List Char := ['#', '&', '(', ')', '[', ']', '\x7b', '\x7d', ';', ',']

/-- A mark that starts no pair is cut off whatever follows. -/
theorem mark {c : Char} (h : c ∈ loneMarks) :
    CutInto [c] [⟨Kind.ofMark c, String.ofList [c]⟩] := by
  refine of_first? fun rest => ?_
  simp only [loneMarks, List.mem_cons, List.not_mem_nil, or_false] at h
  rcases h with rfl | rfl | rfl | rfl | rfl | rfl | rfl | rfl | rfl | rfl <;>
    cases rest <;> exact ⟨_, rfl, rfl⟩

/-- A name in front of a text that does not go on with it. -/
theorem name {text : String} (h : Piece.isName text) {d : Char} (hd : Piece.endsWord d)
    {cs : List Char} {ps : List Piece} (hcs : CutInto (d :: cs) ps) :
    CutInto (text.toList ++ d :: cs) (Piece.name text :: ps) := by
  intro rest
  rw [Piece.isName, Bool.and_eq_true, beq_iff_eq] at h
  obtain ⟨hword, hkind⟩ := h
  cases htext : text.toList with
  | nil => simp [htext, Piece.isWord] at hword
  | cons x xs =>
    rw [htext, Piece.isWord, Bool.and_eq_true] at hword
    have hends : ∀ e ∈ (d :: (cs ++ rest)).head?, Piece.endsWord e := by
      rintro e ⟨⟩
      exact hd
    have hfirst := Piece.first?_of_word hword.2 hends hword.1
    have hpieces : (Lexeme.whole (.token (Kind.ofWord (x :: xs)) (x :: xs)) (x :: xs)).pieces =
        [Piece.name text] := by
      rw [← htext, hkind]
      simp [Lexeme.pieces, Lexeme.tokens, Lexeme.whole, Token.piece, Piece.name]
    rw [List.cons_append, List.cons_append, List.append_assoc, List.cons_append,
      lexemes_of_first? hfirst, List.flatMap_cons, hpieces]
    exact congrArg (Piece.name text :: ·) (hcs rest)

end CutInto

end Rust
end Ferrotype

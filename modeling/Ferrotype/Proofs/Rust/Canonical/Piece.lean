/-
# Spelling tokens

A piece is a token without its position. In canonical form the pieces of a source stand one behind
the other with a blank between them; a line of documentation ends its line instead.

A piece is legible if it is read off its spelling, whatever follows. Punctuation, words and lines of
documentation are; `pieces_tokenize` says that a source of legible pieces is cut into these pieces.
-/

import Ferrotype.Proofs.Unicode.Word
import Ferrotype.Rust.Tokenize

namespace Ferrotype
namespace Rust

/-! ## Pieces -/

/-- A token without its position. -/
@[ext]
structure Piece where
  kind : Kind
  text : String
deriving Repr, DecidableEq, Inhabited

/-- The piece of a token. -/
def Token.piece (t : Token) : Piece := ⟨t.kind, t.text⟩

/-- The pieces of a lexeme. -/
def Lexeme.pieces (lexeme : Lexeme) : List Piece :=
  (lexeme.tokens Position.start).map Token.piece

/-- The tokens of a lexeme, without their places, are its pieces. -/
theorem Lexeme.pieces_tokens (lexeme : Lexeme) (p : Position) :
    (lexeme.tokens p).map Token.piece = lexeme.pieces := by
  unfold pieces tokens
  split <;> simp [Function.comp_def, Token.piece]

/-- The same of all lexemes. -/
theorem TokenStream.pieces_ofLexemes (p : Position) (ls : List Lexeme) :
    (ofLexemes p ls).tokens.map Token.piece = ls.flatMap Lexeme.pieces := by
  induction ls generalizing p with
  | nil => rfl
  | cons lexeme ls ih =>
    rw [ofLexemes, List.map_append, Lexeme.pieces_tokens, ih, List.flatMap_cons]

/-! ## Layout -/

/-- Layout in front is read to its end. -/
theorem first?_of_isLayout {c : Char} (h : Lexeme.isLayout c) (cs : List Char) :
    Lexeme.first? (c :: cs) =
      some (.whole .blank (c :: cs.takeWhile Lexeme.isLayout), cs.dropWhile Lexeme.isLayout) := by
  simp only [Lexeme.first?, Lexeme.readers, List.findSome?_cons, Lexeme.layout?, h, if_true,
    Lexeme.run]

/-- Layout in front of a source gives no tokens. -/
theorem pieces_lexemes_layout {c : Char} (h : Lexeme.isLayout c) (cs : List Char) :
    (lexemes (c :: cs)).flatMap Lexeme.pieces = (lexemes cs).flatMap Lexeme.pieces := by
  rw [lexemes_of_first? (first?_of_isLayout h cs), List.flatMap_cons]
  cases cs with
  | nil => rfl
  | cons d ds =>
    by_cases hd : Lexeme.isLayout d
    · rw [lexemes_of_first? (first?_of_isLayout hd ds), List.flatMap_cons,
        List.dropWhile_cons_of_pos hd]
      rfl
    · rw [List.dropWhile_cons_of_neg hd]
      rfl

/-- Layout in front gives no pieces. -/
theorem pieces_lexemes_layouts {xs : List Char} (hxs : ∀ x ∈ xs, Lexeme.isLayout x)
    (cs : List Char) :
    (lexemes (xs ++ cs)).flatMap Lexeme.pieces = (lexemes cs).flatMap Lexeme.pieces := by
  induction xs with
  | nil => rfl
  | cons x xs ih =>
    rw [List.forall_mem_cons] at hxs
    rw [List.cons_append, pieces_lexemes_layout hxs.1, ih hxs.2]

/-! ## Legible pieces -/

namespace Piece

/-- The characters of a piece in canonical form. -/
def spelling (p : Piece) : List Char :=
  if p.kind = .doc then '/' :: '/' :: '/' :: (p.text.toList ++ ['\n']) else p.text.toList ++ [' ']

/-- A piece that is read off its spelling. -/
def Legible (p : Piece) : Prop :=
  ∀ rest, ∃ lexeme blank, Lexeme.first? (p.spelling ++ rest) = some (lexeme, blank :: rest) ∧
    Lexeme.isLayout blank ∧ lexeme.pieces = [p]

/-- The characters of pieces in canonical form. -/
def spell (ps : List Piece) : List Char := ps.flatMap spelling

/-- Legible pieces with blanks between them are read back. -/
theorem pieces_lexemes_spell {ps : List Piece} (h : ∀ p ∈ ps, p.Legible) :
    (lexemes (spell ps)).flatMap Lexeme.pieces = ps := by
  induction ps with
  | nil => rw [spell, List.flatMap_nil, lexemes_nil, List.flatMap_nil]
  | cons p ps ih =>
    obtain ⟨hp, hps⟩ := List.forall_mem_cons.1 h
    obtain ⟨lexeme, blank, hfirst, hblank, hpieces⟩ := hp (spell ps)
    rw [spell, List.flatMap_cons, ← spell, lexemes_of_first? hfirst, List.flatMap_cons, hpieces,
      pieces_lexemes_layout hblank, ih hps]
    rfl

/-- **A source in canonical form is cut into its pieces.** -/
theorem pieces_tokenize {ps : List Piece} (h : ∀ p ∈ ps, p.Legible) :
    (tokenize (String.ofList (spell ps))).tokens.map Token.piece = ps := by
  rw [tokenize, String.toList_ofList, TokenStream.pieces_ofLexemes, pieces_lexemes_spell h]

/-- A piece that is read as a lexeme of its own text. -/
theorem legible_of_first? {p : Piece} {text : List Char} (htext : p.text.toList = text)
    (hkind : p.kind ≠ .doc)
    (h : ∀ rest, ∃ lexeme, Lexeme.first? (text ++ ' ' :: rest) = some (lexeme, ' ' :: rest) ∧
      lexeme.shape = .token p.kind text) : p.Legible := by
  intro rest
  obtain ⟨lexeme, hfirst, hshape⟩ := h rest
  refine ⟨lexeme, ' ', ?_, rfl, ?_⟩
  · rw [spelling, if_neg hkind, htext, List.append_assoc, List.singleton_append, hfirst]
  · have hpiece : (⟨p.kind, String.ofList text⟩ : Piece) = p := by
      rw [← htext, String.ofList_toList]
    rw [Lexeme.pieces, Lexeme.tokens, hshape]
    exact congrArg (fun q => [q]) hpiece

/-! ## Punctuation -/

/-- The text of the punctuation and the keywords of declarations. -/
def markText : Kind → String
  | .hash => "#" | .bang => "!" | .minus => "-" | .eq => "=" | .lt => "<" | .gt => ">"
  | .colon => ":" | .colonColon => "::" | .semicolon => ";" | .comma => ","
  | .lparen => "(" | .rparen => ")" | .lbrace => "\x7b" | .rbrace => "\x7d"
  | .lbracket => "[" | .rbracket => "]"
  | .struct => "struct" | .enum => "enum" | .const => "const" | .type => "type"
  | _ => ""

/-- The piece of a kind that has one text only. -/
def mark (kind : Kind) : Piece := ⟨kind, markText kind⟩

/-- Marks are legible. -/
theorem legible_mark {kind : Kind} (h : markText kind ≠ "") : (mark kind).Legible := by
  intro rest
  cases kind <;> first | exact absurd rfl h | exact ⟨_, ' ', rfl, rfl, rfl⟩

/-- What stands between two marks is legible with them. -/
theorem legible_enclosed {opener closer : Kind} (hopener : markText opener ≠ "")
    (hcloser : markText closer ≠ "") {ps : List Piece} (h : ∀ p ∈ ps, p.Legible) :
    ∀ p ∈ mark opener :: (ps ++ [mark closer]), p.Legible := by
  rw [List.forall_mem_cons, List.forall_mem_append, List.forall_mem_singleton]
  exact ⟨legible_mark hopener, h, legible_mark hcloser⟩

/-- What follows a group stands behind its closing token. -/
theorem enclosed_append (opener closer : Kind) (ps rest : List Piece) :
    mark opener :: (ps ++ [mark closer]) ++ rest = mark opener :: (ps ++ mark closer :: rest) := by
  rw [List.cons_append, List.append_assoc, List.singleton_append]

/-! ## Words -/

/-- The characters that start layout, a comment or a literal in quotes. -/
def delimiters : List Char := [' ', '\t', '\r', '\n', '/', '"', '\'']

/-- What starts with none of these is read by one of the other readers. -/
theorem first?_of_notMem_delimiters {c : Char} (h : c ∉ delimiters) (cs : List Char) :
    Lexeme.first? (c :: cs) =
      [Lexeme.rawString?, Lexeme.bytes?, Lexeme.rawWord?, Lexeme.number?, Lexeme.word?,
        Lexeme.pair?, Lexeme.mark?].findSome? (· (c :: cs)) := by
  simp only [delimiters, List.mem_cons, List.not_mem_nil, or_false, not_or] at h
  obtain ⟨hblank, htab, hreturn, hnewline, hslash, hquote, happ⟩ := h
  have hlayout : Lexeme.layout? (c :: cs) = none := by
    rw [Lexeme.layout?, if_neg]
    simp [Lexeme.isLayout, hblank, htab, hreturn, hnewline]
  have hline : Lexeme.lineComment? (c :: cs) = none := by
    simp [Lexeme.lineComment?.eq_def, hslash]
  have hblock : Lexeme.blockComment? (c :: cs) = none := by
    simp [Lexeme.blockComment?.eq_def, hslash]
  have hstring : Lexeme.string? (c :: cs) = none := by
    simp [Lexeme.string?.eq_def, hquote]
  have hsingle : Lexeme.single? (c :: cs) = none := by
    simp [Lexeme.single?.eq_def, happ]
  simp only [Lexeme.first?, Lexeme.readers, List.findSome?_cons, hlayout, hline, hblock, hstring,
    hsingle]

/-- Whether characters are those of a word. -/
def isWord : List Char → Bool
  | [] => false
  | c :: cs => Unicode.isWordStart c && cs.all Unicode.isWordChar

/-- A character of a word is no delimiter. -/
theorem ne_of_isWordChar {c : Char} (h : Unicode.isWordChar c) {d : Char}
    (hd : Unicode.isWordChar d = false) : c ≠ d := by
  rintro rfl
  rw [hd] at h
  cases h

/-- What starts a word is no other character. -/
theorem ne_of_isWordStart {c : Char} (h : Unicode.isWordStart c) {d : Char}
    (hd : Unicode.isWordStart d = false) : c ≠ d := by
  rintro rfl
  rw [hd] at h
  cases h

/-- Whether a word ends in front of a character, which opens no literal with the word either. -/
def endsWord (d : Char) : Bool :=
  !Unicode.isWordChar d && d != '"' && d != '\'' && d != '#'

section Words

variable {c : Char} {cs tail : List Char} (hcs : cs.all Unicode.isWordChar)
  (htail : ∀ d ∈ tail.head?, endsWord d)
include hcs htail

/-- What goes on as a word does, up to a character that ends it, starts with no quote and no
hash. -/
theorem head?_of_word : ∀ x ∈ (cs ++ tail).head?, x ≠ '"' ∧ x ≠ '\'' ∧ x ≠ '#' := by
  intro x hx
  cases cs with
  | nil =>
    have hd := htail x hx
    simp only [endsWord, Bool.and_eq_true, bne_iff_ne] at hd
    exact ⟨hd.1.1.2, hd.1.2, hd.2⟩
  | cons y ys =>
    cases hx
    have hx : Unicode.isWordChar x := List.all_eq_true.1 hcs x List.mem_cons_self
    exact ⟨ne_of_isWordChar hx (by decide), ne_of_isWordChar hx (by decide),
      ne_of_isWordChar hx (by decide)⟩

/-- A word in front of what does not go on with it is no raw literal. -/
theorem rawString?_of_word : Lexeme.rawString? (c :: (cs ++ tail)) = none := by
  have hopens {xs : List Char} (hxs : ∀ x ∈ xs.head?, x ≠ '"' ∧ x ≠ '\'' ∧ x ≠ '#') :
      ¬ Lexeme.opensRaw xs ∧ ¬ Lexeme.opensRawBytes xs := by
    cases xs with
    | nil => exact ⟨Bool.false_ne_true, Bool.false_ne_true⟩
    | cons x xs =>
      obtain ⟨hquote, -, hhash⟩ := hxs x rfl
      simp [Lexeme.opensRaw.eq_def, Lexeme.opensRawBytes.eq_def, hquote, hhash]
  unfold Lexeme.rawString?
  split
  · rename_i more heq
    obtain ⟨-, rfl⟩ := List.cons.inj heq
    rw [if_neg (hopens (head?_of_word hcs htail)).1]
  · rename_i more heq
    obtain ⟨-, hmore⟩ := List.cons.inj heq
    cases cs with
    | nil =>
      rw [List.nil_append] at hmore
      rw [hmore] at htail
      exact absurd (htail 'r' rfl) (by decide)
    | cons y ys =>
      rw [List.cons_append] at hmore
      obtain ⟨-, rfl⟩ := List.cons.inj hmore
      rw [List.all_cons, Bool.and_eq_true] at hcs
      rw [if_neg (hopens (head?_of_word hcs.2 htail)).2]
  · rfl

/-- Nor is it a literal of bytes. -/
theorem bytes?_of_word : Lexeme.bytes? (c :: (cs ++ tail)) = none := by
  have hhead := head?_of_word hcs htail
  unfold Lexeme.bytes?
  split
  · rename_i more heq
    rw [(List.cons.inj heq).2] at hhead
    exact absurd rfl (hhead _ rfl).1
  · rename_i more heq
    rw [(List.cons.inj heq).2] at hhead
    exact absurd rfl (hhead _ rfl).2.1
  · rfl

/-- Nor is it a raw word. -/
theorem rawWord?_of_word : Lexeme.rawWord? (c :: (cs ++ tail)) = none := by
  have hhead := head?_of_word hcs htail
  unfold Lexeme.rawWord?
  split
  · rename_i x more heq
    rw [(List.cons.inj heq).2] at hhead
    exact absurd rfl (hhead _ rfl).2.2
  · rfl

/-- A run of word characters ends where the word does. -/
theorem run_of_word : Lexeme.run Unicode.isWordChar (cs ++ tail) = (cs, tail) := by
  have hstop : ∀ d ∈ tail.head?, Unicode.isWordChar d = false := by
    intro d hd
    have hends := htail d hd
    simp only [endsWord, Bool.and_eq_true, Bool.not_eq_true'] at hends
    exact hends.1.1.1
  obtain ⟨htake, hdrop⟩ := Text.takeWhile_append_of_head? (List.all_eq_true.1 hcs) hstop
  rw [Lexeme.run, htake, hdrop]

/-- **A word is read as a word**, also one that starts like a literal. -/
theorem first?_of_word (hc : Unicode.isWordStart c) :
    Lexeme.first? (c :: (cs ++ tail)) =
      some (.whole (.token (Kind.ofWord (c :: cs)) (c :: cs)) (c :: cs), tail) := by
  have hnone : delimiters.all (!Unicode.isWordStart ·) := by decide
  have hdelimiters : c ∉ delimiters := fun hmem => by
    have hstart := List.all_eq_true.1 hnone c hmem
    rw [hc] at hstart
    cases hstart
  have hnumber : Lexeme.number? (c :: (cs ++ tail)) = none := by
    rw [Lexeme.number?, if_neg (by simp [Unicode.isDigit_of_isWordStart hc])]
  have hword : Lexeme.word? (c :: (cs ++ tail)) =
      some (.whole (.token (Kind.ofWord (c :: cs)) (c :: cs)) (c :: cs), tail) := by
    simp only [Lexeme.word?, hc, if_true, run_of_word hcs htail]
  simp only [first?_of_notMem_delimiters hdelimiters, List.findSome?_cons,
    rawString?_of_word hcs htail, bytes?_of_word hcs htail, rawWord?_of_word hcs htail, hnumber,
    hword]

end Words

/-- A kind that is neither in a table nor its default is given to no key. -/
theorem lookup_getD_ne {α : Type} [BEq α] [LawfulBEq α] {table : List (α × Kind)}
    {default kind : Kind} (hdefault : default ≠ kind) (hall : ∀ e ∈ table, e.2 ≠ kind) (key : α) :
    (table.lookup key).getD default ≠ kind := by
  cases hfound : table.lookup key with
  | none => exact hdefault
  | some found =>
    obtain ⟨before, after, hsplit, -⟩ := List.lookup_eq_some_iff.1 hfound
    exact hall (key, found) (hsplit ▸ List.mem_append_right _ List.mem_cons_self)

/-- No word is documentation. -/
theorem ofWord_ne_doc (word : List Char) : Kind.ofWord word ≠ .doc :=
  lookup_getD_ne Kind.noConfusion (by decide) word

/-- Words are legible. -/
theorem legible_of_isWord {text : String} (h : isWord text.toList) :
    Legible ⟨Kind.ofWord text.toList, text⟩ := by
  refine legible_of_first? rfl (ofWord_ne_doc _) fun rest => ?_
  cases htext : text.toList with
  | nil => simp [htext, isWord] at h
  | cons c cs =>
    rw [htext, isWord, Bool.and_eq_true] at h
    have hblank : ∀ d ∈ (' ' :: rest).head?, endsWord d := by
      rintro d ⟨⟩
      decide
    exact ⟨_, first?_of_word h.2 hblank h.1, rfl⟩

/-! ## Documentation -/

/-- Whether a text can stand in a line of documentation: it holds no line feed and ends with no
carriage return. -/
def isDocText (text : String) : Bool :=
  text.toList.all (· != '\n') && text.toList.getLast? != some '\r'

/-- A line without a carriage return at its end is kept. -/
theorem lineDocText_of_getLast? {cs : List Char} (h : cs.getLast? ≠ some '\r') :
    lineDocText cs = cs := by
  rw [List.getLast?_eq_head?_reverse] at h
  rw [lineDocText, List.dropWhile_beq_eq_self_of_head?_ne h, List.reverse_reverse]

/-- Three slashes and a blank make a comment documentation. -/
theorem first?_of_doc {cs : List Char} (hcs : cs.all (· != '\n')) (rest : List Char) :
    Lexeme.first? ('/' :: '/' :: '/' :: ' ' :: (cs ++ '\n' :: rest)) =
      some (.whole (.lineDoc (' ' :: cs)) ('/' :: '/' :: '/' :: ' ' :: cs), '\n' :: rest) := by
  have hrun : Lexeme.run (· != '\n') ('/' :: ' ' :: (cs ++ '\n' :: rest)) =
      ('/' :: ' ' :: cs, '\n' :: rest) := by
    have hall := List.all_eq_true.1 hcs
    simp [Lexeme.run, List.takeWhile_append_of_pos hall, List.dropWhile_append_of_pos hall]
  have hcomment : Lexeme.lineComment? ('/' :: '/' :: '/' :: ' ' :: (cs ++ '\n' :: rest)) =
      some (.whole (.lineDoc (' ' :: cs)) ('/' :: '/' :: '/' :: ' ' :: cs), '\n' :: rest) := by
    simp only [Lexeme.lineComment?, hrun]
    rfl
  have hlayout : Lexeme.layout? ('/' :: '/' :: '/' :: ' ' :: (cs ++ '\n' :: rest)) = none := rfl
  rw [Lexeme.first?, Lexeme.readers, List.findSome?_cons, hlayout, List.findSome?_cons, hcomment]

/-- Lines of documentation are legible. -/
theorem legible_of_isDocText {text : String} (h : isDocText text) :
    Legible ⟨.doc, " " ++ text⟩ := by
  intro rest
  obtain ⟨hlines, hend⟩ := Bool.and_eq_true_iff.1 h
  have hlast : (' ' :: text.toList).getLast? ≠ some '\r' := by
    cases htext : text.toList with
    | nil => decide
    | cons c cs =>
      rw [List.getLast?_cons_cons, ← htext]
      simpa using hend
  refine ⟨.whole (.lineDoc (' ' :: text.toList)) ('/' :: '/' :: '/' :: ' ' :: text.toList), '\n',
    ?_, rfl, ?_⟩
  · simpa [spelling] using first?_of_doc hlines rest
  · have hpiece : (⟨.doc, String.ofList (' ' :: text.toList)⟩ : Piece) = ⟨.doc, " " ++ text⟩ := by
      rw [String.ofList_cons, String.ofList_toList]
      rfl
    simp only [Lexeme.pieces, Lexeme.tokens, Lexeme.whole, lineDocText_of_getLast? hlast]
    exact congrArg (fun q => [q]) hpiece

end Piece
end Rust
end Ferrotype

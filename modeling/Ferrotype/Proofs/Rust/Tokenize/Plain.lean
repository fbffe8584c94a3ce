/-
# Tokens that stand in a source as they are

The text of a token is what the source holds there, but for documentation, for raw identifiers and
for literals of bytes or in raw form. `Piece.Plain` says what the others look like: words, numbers,
lifetimes, closed literals and punctuation.

Nothing goes on with a closed literal or with punctuation of two characters, so these are read
whatever follows. The others are read in front of a character that does not go on with them. A
plain piece is known by its first character if that is a mark or a digit.
-/

import Ferrotype.Proofs.Rust.Tokenize.Point
import Ferrotype.Proofs.Rust.Tokenize.Remark

namespace Ferrotype
namespace Rust

open Unicode (isWordChar isWordStart)
open Lexeme (run isLayout opensChar quotedTail)

/-- What stands between the quotes of a literal: a quote only behind a backslash. -/
inductive QuotedBody (quote : Char) : List Char → Prop
  | nil : QuotedBody quote []
  | plain {c : Char} {cs : List Char} (hquote : c ≠ quote) (hbackslash : c ≠ '\\')
      (h : QuotedBody quote cs) : QuotedBody quote (c :: cs)
  | escape {c : Char} {cs : List Char} (h : QuotedBody quote cs) :
      QuotedBody quote ('\\' :: c :: cs)

/-- Whether a character is a token of its own unless it is part of a pair. -/
def isMark (c : Char) : Bool :=
  !isLayout c && c != '"' && c != '\'' && !Unicode.isDigit c && !isWordStart c

namespace Piece

/-- Pieces whose text is that of the source. -/
inductive Plain : Piece → Prop
  | word {text : List Char} (h : isWord text) : Plain ⟨Kind.ofWord text, String.ofList text⟩
  | number {text : List Char} (h : isNumeral text) : Plain ⟨.number, String.ofList text⟩
  | lifetime {c : Char} {cs : List Char} (h : (c :: cs).all isWordChar) :
      Plain ⟨.lifetime, String.ofList ('\'' :: c :: cs)⟩
  | string {body : List Char} (h : QuotedBody '"' body) :
      Plain ⟨.string, String.ofList ('"' :: (body ++ ['"']))⟩
  | char {body : List Char} (h : QuotedBody '\'' body) (hopens : opensChar (body ++ ['\''])) :
      Plain ⟨.char, String.ofList ('\'' :: (body ++ ['\'']))⟩
  | pair {c d : Char} {kind : Kind} (h : Kind.ofPair? c d = some kind) :
      Plain ⟨kind, String.ofList [c, d]⟩
  | mark {c : Char} (h : isMark c) : Plain ⟨Kind.ofMark c, String.ofList [c]⟩

/-- A piece that is read in front of a text. -/
def IsReadBefore (p : Piece) (tail : List Char) : Prop :=
  ∃ lexeme, Lexeme.first? (p.text.toList ++ tail) = some (lexeme, tail) ∧ lexeme.pieces = [p]

/-- A piece is read if a lexeme with its kind and its text is. -/
theorem isReadBefore_of_first? {kind : Kind} {text tail : List Char}
    (h : Lexeme.first? (text ++ tail) = some (.whole (.token kind text) text, tail)) :
    IsReadBefore ⟨kind, String.ofList text⟩ tail :=
  ⟨_, by rw [String.toList_ofList, h], rfl⟩

end Piece

/-! ## Literals -/

/-- A body is read up to the quote behind it. The induction is on the body. -/
theorem QuotedBody.quotedTail_append {quote : Char} {body : List Char} (h : QuotedBody quote body)
    (hquote : quote ≠ '\\') (rest : List Char) :
    quotedTail quote (body ++ quote :: rest) = ⟨body, [quote], rest⟩ := by
  induction h with
  | nil => rw [List.nil_append, Lexeme.quotedTail_cons hquote, if_pos rfl]
  | plain hne hbackslash _ ih =>
    rw [List.cons_append, Lexeme.quotedTail_cons hbackslash, if_neg hne, ih]
    rfl
  | escape _ ih =>
    rw [List.cons_append, List.cons_append, quotedTail, ih]
    rfl

/-- What is read of a literal that is closed is a body. -/
theorem quotedBody_of_closing {quote : Char} {cs : List Char}
    (h : (quotedTail quote cs).closing ≠ []) :
    QuotedBody quote (quotedTail quote cs).content ∧ (quotedTail quote cs).closing = [quote] := by
  fun_induction quotedTail quote cs with
  | case1 => exact absurd rfl h
  | case2 => exact absurd rfl h
  | case3 c cs ih => exact ⟨.escape (ih h).1, (ih h).2⟩
  | case4 cs => exact ⟨.nil, rfl⟩
  | case5 c cs hlast hescape hne ih =>
    refine ⟨.plain hne ?_ (ih h).1, (ih h).2⟩
    rintro rfl
    cases cs with
    | nil => exact hlast rfl rfl
    | cons d cs => exact hescape d cs rfl rfl

/-- What follows the body of a character does not decide whether a quote opens it. -/
theorem opensChar_append {body : List Char} (hbody : body ≠ []) (c : Char) (tail : List Char) :
    opensChar (body ++ c :: tail) = opensChar (body ++ [c]) := by
  rcases body with _ | ⟨x, _ | ⟨y, body⟩⟩
  · exact absurd rfl hbody
  · rw [List.singleton_append, Lexeme.opensChar_cons_cons, List.singleton_append,
      Lexeme.opensChar_cons_cons]
  · rw [List.cons_append, List.cons_append, Lexeme.opensChar_cons_cons, List.cons_append,
      List.cons_append, Lexeme.opensChar_cons_cons]

/-- A closed string is read whatever follows. -/
theorem first?_of_string {body : List Char} (h : QuotedBody '"' body) (tail : List Char) :
    Lexeme.first? ('"' :: (body ++ ['"']) ++ tail) =
      some (.whole (.token .string ('"' :: (body ++ ['"']))) ('"' :: (body ++ ['"'])), tail) := by
  have hfirst (cs : List Char) :
      Lexeme.first? ('"' :: cs) = some (Lexeme.quotedBehind .string [] '"' cs) := rfl
  rw [List.cons_append, List.append_assoc, List.singleton_append, hfirst, Lexeme.quotedBehind,
    h.quotedTail_append (by decide)]
  rfl

/-- A closed character is read whatever follows. -/
theorem first?_of_char {body : List Char} (h : QuotedBody '\'' body)
    (hopens : opensChar (body ++ ['\''])) (tail : List Char) :
    Lexeme.first? ('\'' :: (body ++ ['\'']) ++ tail) =
      some (.whole (.token .char ('\'' :: (body ++ ['\'']))) ('\'' :: (body ++ ['\''])), tail) := by
  have hread : Lexeme.single? ('\'' :: (body ++ '\'' :: tail)) =
      some (.whole (.token .char ('\'' :: (body ++ ['\'']))) ('\'' :: (body ++ ['\''])), tail) := by
    have hbody : body ≠ [] := by
      rintro rfl
      cases hopens
    rw [← opensChar_append hbody '\'' tail] at hopens
    rw [Lexeme.single?, if_pos hopens, Lexeme.quotedBehind, h.quotedTail_append (by decide)]
    rfl
  rw [List.cons_append, List.append_assoc, List.singleton_append, first?_of_single? hread]

/-! ## Lifetimes and punctuation -/

/-- A lifetime is read in front of what neither goes on with it nor makes it a character. -/
theorem first?_of_lifetime {c : Char} {cs tail : List Char} (h : (c :: cs).all isWordChar)
    (htail : ∀ d ∈ tail.head?, isWordChar d = false ∧ d ≠ '\'') :
    Lexeme.first? ('\'' :: c :: cs ++ tail) =
      some (.whole (.token .lifetime ('\'' :: c :: cs)) ('\'' :: c :: cs), tail) := by
  have hall := List.all_eq_true.1 h
  have hne (x : Char) (hx : x ∈ c :: cs) : x ≠ '\'' :=
    Piece.ne_of_isWordChar (hall x hx) (by decide)
  have hbackslash : c ≠ '\\' :=
    Piece.ne_of_isWordChar (hall c List.mem_cons_self) (by decide)
  have hopens : ¬ opensChar (c :: (cs ++ tail)) := by
    cases cs with
    | nil =>
      cases tail with
      | nil => simp [opensChar, hbackslash]
      | cons d tail => simp [Lexeme.opensChar_cons_cons, hbackslash, (htail d rfl).2]
    | cons x cs =>
      simp [Lexeme.opensChar_cons_cons, hbackslash, hne x (by simp)]
  have hrun : run isWordChar (c :: (cs ++ tail)) = (c :: cs, tail) :=
    Lexeme.run_append_of_head? hall fun d hd => (htail d hd).1
  have hread : Lexeme.single? ('\'' :: c :: (cs ++ tail)) =
      some (.whole (.token .lifetime ('\'' :: c :: cs)) ('\'' :: c :: cs), tail) := by
    rw [Lexeme.single?, if_neg hopens, hrun]
  exact first?_of_single? hread

/-- A pair is read whatever follows. -/
theorem first?_of_ofPair? {c d : Char} {kind : Kind} (h : Kind.ofPair? c d = some kind)
    (tail : List Char) :
    Lexeme.first? ([c, d] ++ tail) = some (.whole (.token kind [c, d]) [c, d], tail) := by
  revert h
  fun_cases Kind.ofPair? c d <;> rintro ⟨⟩ <;> rfl

/-- A mark is read unless it is the first part of a pair or opens a comment. -/
theorem first?_of_isMark {c : Char} (hc : isMark c) {tail : List Char}
    (htail : ∀ d ∈ tail.head?, Kind.ofPair? c d = none ∧ (c = '/' → d ≠ '/' ∧ d ≠ '*')) :
    Lexeme.first? ([c] ++ tail) = some (.whole (.token (Kind.ofMark c) [c]) [c], tail) := by
  simp only [isMark, Bool.and_eq_true, Bool.not_eq_true', bne_iff_ne] at hc
  obtain ⟨⟨⟨⟨hlayout, hquote⟩, happ⟩, hdigit⟩, hstart⟩ := hc
  have hword (d : Char) (hd : isWordStart d) : c ≠ d := by
    rintro rfl
    rw [hd] at hstart
    cases hstart
  have hr : c ≠ 'r' := hword 'r' (by decide)
  have hb : c ≠ 'b' := hword 'b' (by decide)
  have hline : Lexeme.lineComment? (c :: tail) = none := by
    unfold Lexeme.lineComment?
    split
    · rename_i heq
      obtain ⟨rfl, rfl⟩ := List.cons.inj heq
      exact absurd rfl ((htail '/' rfl).2 rfl).1
    · rfl
  have hblock : Lexeme.blockComment? (c :: tail) = none := by
    unfold Lexeme.blockComment?
    split
    · rename_i heq
      obtain ⟨rfl, rfl⟩ := List.cons.inj heq
      exact absurd rfl ((htail '*' rfl).2 rfl).2
    · rfl
  have hpair : Lexeme.pair? (c :: tail) = none := by
    cases tail with
    | nil => rfl
    | cons d tail => rw [Lexeme.pair?, (htail d rfl).1, Option.map_none]
  have hreads : Lexeme.layout? (c :: tail) = none ∧ Lexeme.rawString? (c :: tail) = none ∧
      Lexeme.bytes? (c :: tail) = none ∧ Lexeme.rawWord? (c :: tail) = none ∧
      Lexeme.string? (c :: tail) = none ∧ Lexeme.single? (c :: tail) = none ∧
      Lexeme.number? (c :: tail) = none ∧ Lexeme.word? (c :: tail) = none := by
    simp [Lexeme.layout?, hlayout, Lexeme.rawString?.eq_def, hr, hb, Lexeme.bytes?.eq_def,
      Lexeme.rawWord?.eq_def, Lexeme.string?.eq_def, hquote, Lexeme.single?.eq_def, happ,
      Lexeme.number?, hdigit, Lexeme.word?, hstart]
  obtain ⟨h₁, h₂, h₃, h₄, h₅, h₆, h₇, h₈⟩ := hreads
  rw [List.singleton_append]
  simp only [Lexeme.first?, Lexeme.readers, List.findSome?_cons, h₁, hline, hblock, h₂, h₃, h₄, h₅,
    h₆, h₇, h₈, hpair]
  rfl

/-! ## Plain pieces by their first and last characters -/

/-- Whether a character can stand at the end of a word, a number or a literal. -/
def endsPlain (c : Char) : Bool := isWordChar c || c == '"' || c == '\''

/-- What goes on with a word can end a plain piece. -/
theorem endsPlain_of_isWordChar {c : Char} (h : isWordChar c) : endsPlain c := by
  rw [endsPlain, h]
  rfl

/-- A word ends with such a character. -/
theorem endsPlain_of_all {cs : List Char} (h : cs.all isWordChar) :
    ∀ c ∈ cs.getLast?, endsPlain c := fun c hc =>
  endsPlain_of_isWordChar (List.all_eq_true.1 h c (List.mem_of_mem_getLast? hc))

/-- So does a number. -/
theorem endsPlain_of_isNumeral {text : List Char} (h : isNumeral text) :
    ∀ c ∈ text.getLast?, endsPlain c := fun c hc =>
  endsPlain_of_isWordChar (isWordChar_of_isNumeral h c hc)

/-- All characters of a word go on with one. -/
theorem all_of_isWord {text : List Char} (h : Piece.isWord text) : text.all isWordChar := by
  cases text with
  | nil => cases h
  | cons c cs =>
    rw [Piece.isWord, Bool.and_eq_true] at h
    rw [List.all_cons, Unicode.isWordChar_of_isWordStart h.1, h.2]
    rfl

/-- The three pairs there are. -/
theorem eq_of_ofPair? {c d : Char} {kind : Kind} (h : Kind.ofPair? c d = some kind) :
    c = ':' ∧ d = ':' ∨ (c = '-' ∨ c = '=') ∧ d = '>' := by
  revert h
  fun_cases Kind.ofPair? c d <;> simp

namespace Piece

variable {p : Piece}

/-- A plain piece has a character. -/
theorem Plain.exists_cons (h : p.Plain) : ∃ c cs, p.text.toList = c :: cs := by
  have hne : p.text.toList ≠ [] := by
    cases h with
    | word h | number h =>
      rw [String.toList_ofList]
      rintro rfl
      cases h
    | lifetime | string | char | pair | mark => simp
  exact List.exists_cons_of_ne_nil hne

/-- A plain piece is punctuation, or it starts with no mark and ends with a character of a word or a
quote. -/
theorem Plain.punctuation_or (h : p.Plain) :
    (∃ c, isMark c ∧ p = ⟨Kind.ofMark c, String.ofList [c]⟩) ∨
      (∃ c d kind, Kind.ofPair? c d = some kind ∧ p = ⟨kind, String.ofList [c, d]⟩) ∨
      (∀ c ∈ p.text.toList.head?, isMark c = false) ∧
        ∀ c ∈ p.text.toList.getLast?, endsPlain c := by
  cases h with
  | mark h => exact .inl ⟨_, h, rfl⟩
  | pair h => exact .inr (.inl ⟨_, _, _, h, rfl⟩)
  | @word text h =>
    rw [String.toList_ofList]
    refine .inr (.inr ⟨fun c hc => ?_, endsPlain_of_all (all_of_isWord h)⟩)
    cases text with
    | nil => cases hc
    | cons d ds =>
      cases hc
      rw [isWord, Bool.and_eq_true] at h
      simp [isMark, h.1]
  | @number text h =>
    rw [String.toList_ofList]
    refine .inr (.inr ⟨fun c hc => ?_, endsPlain_of_isNumeral h⟩)
    cases text with
    | nil => cases hc
    | cons d ds =>
      cases hc
      rw [isNumeral_cons] at h
      simp [isMark, h.1]
  | lifetime h =>
    rw [String.toList_ofList]
    refine .inr (.inr ⟨by rintro c ⟨⟩; rfl, fun c hc => ?_⟩)
    rw [List.getLast?_cons_cons] at hc
    exact endsPlain_of_all h c hc
  | string | char =>
    rw [String.toList_ofList]
    refine .inr (.inr ⟨by rintro c ⟨⟩; rfl, fun c hc => ?_⟩)
    rw [← List.cons_append, List.getLast?_concat] at hc
    cases hc
    rfl

/-- What starts with a mark is punctuation. -/
theorem Plain.eq_of_isMark (h : p.Plain) {c : Char} (hc : isMark c)
    (hhead : c ∈ p.text.toList.head?) :
    p = ⟨Kind.ofMark c, String.ofList [c]⟩ ∨
      ∃ d kind, Kind.ofPair? c d = some kind ∧ p = ⟨kind, String.ofList [c, d]⟩ := by
  obtain ⟨d, -, rfl⟩ | ⟨d, e, kind, hkind, rfl⟩ | ⟨hnone, -⟩ := h.punctuation_or
  · rw [String.toList_ofList] at hhead
    cases hhead
    exact .inl rfl
  · rw [String.toList_ofList] at hhead
    cases hhead
    exact .inr ⟨e, kind, hkind, rfl⟩
  · rw [hnone c hhead] at hc
    cases hc

/-- What starts with a mark that makes up no pair is the mark. -/
theorem Plain.eq_of_isMark_alone (h : p.Plain) {c : Char} (hc : isMark c)
    (halone : ∀ d, Kind.ofPair? c d = none) (hhead : c ∈ p.text.toList.head?) :
    p = ⟨Kind.ofMark c, String.ofList [c]⟩ := by
  refine (h.eq_of_isMark hc hhead).resolve_right ?_
  rintro ⟨d, kind, hpair, -⟩
  rw [halone d] at hpair
  cases hpair

/-- What ends with a colon is one or two. -/
theorem Plain.eq_of_getLast?_colon (h : p.Plain) (hlast : ':' ∈ p.text.toList.getLast?) :
    p = ⟨.colon, ":"⟩ ∨ p = ⟨.colonColon, "::"⟩ := by
  obtain ⟨d, -, rfl⟩ | ⟨d, e, kind, hkind, rfl⟩ | ⟨-, hends⟩ := h.punctuation_or
  · rw [String.toList_ofList] at hlast
    cases hlast
    exact .inl rfl
  · rw [String.toList_ofList] at hlast
    cases hlast
    obtain ⟨rfl, -⟩ | ⟨-, h⟩ := eq_of_ofPair? hkind
    · cases hkind
      exact .inr rfl
    · cases h
  · exact absurd (hends ':' hlast) (by decide)

/-- A plain number is a numeral. -/
theorem Plain.isNumeral (h : p.Plain) (hkind : p.kind = .number) : isNumeral p.text.toList := by
  cases h with
  | word => exact absurd hkind (ofWord_ne_number _)
  | number h => rwa [String.toList_ofList]
  | lifetime | string | char => cases hkind
  | pair h => exact absurd (h.trans (congrArg some hkind)) (ofPair?_ne_number _ _)
  | mark => exact absurd hkind (ofMark_ne_number _)

/-- What starts with a digit is a number. -/
theorem Plain.kind_of_isDigit (h : p.Plain) {c : Char} (hc : Unicode.isDigit c)
    (hhead : c ∈ p.text.toList.head?) : p.kind = .number := by
  cases h with
  | @word text h =>
    rw [String.toList_ofList] at hhead
    cases text with
    | nil => cases hhead
    | cons d ds =>
      cases hhead
      rw [isWord, Bool.and_eq_true] at h
      rw [Unicode.isDigit_of_isWordStart h.1] at hc
      cases hc
  | number => rfl
  | lifetime | char | string =>
    rw [String.toList_ofList] at hhead
    cases hhead
    exact absurd hc (by decide)
  | pair hkind =>
    rw [String.toList_ofList] at hhead
    cases hhead
    obtain ⟨rfl, -⟩ | ⟨rfl | rfl, -⟩ := eq_of_ofPair? hkind <;> exact absurd hc (by decide)
  | mark hmark =>
    rw [String.toList_ofList] at hhead
    cases hhead
    simp [isMark, hc] at hmark

end Piece

/-! ## What is read from a source -/

/-- What no reader takes that knows a lexeme by its first character is a mark. -/
theorem isMark_of_readers {c : Char} {cs : List Char} (hlayout : Lexeme.layout? (c :: cs) = none)
    (hstring : Lexeme.string? (c :: cs) = none) (hsingle : Lexeme.single? (c :: cs) = none)
    (hnumber : Lexeme.number? (c :: cs) = none) (hword : Lexeme.word? (c :: cs) = none) :
    isMark c := by
  have hquote : c ≠ '"' := by
    rintro rfl
    cases hstring
  have happ : c ≠ '\'' := by
    rintro rfl
    rw [Lexeme.single?] at hsingle
    split at hsingle <;> cases hsingle
  simp_all [isMark, Lexeme.layout?, Lexeme.number?, Lexeme.word?]

/-- A search takes the first result, or goes on behind an element without one. -/
theorem findSome?_cons_eq_some_iff {α β : Type} {f : α → Option β} {x : α} {xs : List α} {y : β} :
    (x :: xs).findSome? f = some y ↔ f x = some y ∨ f x = none ∧ xs.findSome? f = some y := by
  rw [List.findSome?_cons]
  cases f x <;> simp

end Rust
end Ferrotype

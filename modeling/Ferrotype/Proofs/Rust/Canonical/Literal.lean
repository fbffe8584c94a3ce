/-
# Spelling literals

In canonical form a string or a character stands between quotes, with a backslash before quotes,
backslashes and the letters that stand for controls. Such a literal is legible, and
`unquote_quoted` says that it stands for the text it was made of.
-/

import Ferrotype.Proofs.Rust.Canonical.Piece
import Ferrotype.Rust.Escape

namespace Ferrotype
namespace Rust

/-! ## Quotes and escapes -/

/-- Whether a character can enclose a literal. -/
def IsQuote (c : Char) : Prop := c = '"' ∨ c = '\''

/-- A character inside a literal in canonical form. -/
def escapeChar (quote c : Char) : List Char :=
  if c = quote ∨ c = '\\' then ['\\', c]
  else if c = '\n' then ['\\', 'n']
  else if c = '\r' then ['\\', 'r']
  else if c = '\t' then ['\\', 't']
  else if c = '\x00' then ['\\', '0']
  else [c]

/-- A text between quotes in canonical form. -/
def quoted (quote : Char) (cs : List Char) : List Char :=
  quote :: (cs.flatMap (escapeChar quote) ++ [quote])

/-- What stands for a character: a backslash with one other, or the character itself. -/
theorem escapeChar_cases {quote : Char} (hquote : IsQuote quote) (c : Char) :
    (∃ e, escapeChar quote c = ['\\', e] ∧ Escape.ofLetter? e = some c) ∨
      escapeChar quote c = [c] ∧ c ≠ quote ∧ c ≠ '\\' := by
  unfold escapeChar
  split
  · rename_i h
    refine .inl ⟨c, rfl, ?_⟩
    rcases hquote with rfl | rfl <;> rcases h with rfl | rfl <;> rfl
  · rename_i h
    obtain ⟨hne, hbackslash⟩ := not_or.1 h
    split
    · rename_i hc
      exact .inl ⟨'n', rfl, hc ▸ rfl⟩
    · split
      · rename_i hc
        exact .inl ⟨'r', rfl, hc ▸ rfl⟩
      · split
        · rename_i hc
          exact .inl ⟨'t', rfl, hc ▸ rfl⟩
        · split
          · rename_i hc
            exact .inl ⟨'0', rfl, hc ▸ rfl⟩
          · exact .inr ⟨rfl, hne, hbackslash⟩

/-- A literal is read up to the quote that closes it. -/
theorem quotedTail_escape {quote : Char} (hquote : IsQuote quote) (cs rest : List Char) :
    Lexeme.quotedTail quote (cs.flatMap (escapeChar quote) ++ quote :: rest) =
      ⟨cs.flatMap (escapeChar quote), [quote], rest⟩ := by
  have hbackslash : quote ≠ '\\' := by rcases hquote with rfl | rfl <;> decide
  induction cs with
  | nil =>
    rw [List.flatMap_nil, List.nil_append, Lexeme.quotedTail, if_pos rfl]
    · exact fun h _ => hbackslash h
    · exact fun _ _ h _ => hbackslash h
  | cons c cs ih =>
    rw [List.flatMap_cons, List.append_assoc]
    obtain ⟨e, he, -⟩ | ⟨hc, hne, hnot⟩ := escapeChar_cases hquote c
    · rw [he, List.cons_append, List.cons_append, List.nil_append, Lexeme.quotedTail, ih]
      rfl
    · rw [hc, List.singleton_append, Lexeme.quotedTail, if_neg hne, ih]
      · rfl
      · exact fun h _ => hnot h
      · exact fun _ _ h _ => hnot h

/-- Escapes stand for the characters they were made of. -/
theorem resolve_escape {quote : Char} (hquote : IsQuote quote) (cs : List Char) :
    Escape.resolve (cs.flatMap (escapeChar quote)) = .ok cs := by
  induction cs with
  | nil => rw [List.flatMap_nil, Escape.resolve]
  | cons c cs ih =>
    rw [List.flatMap_cons]
    obtain ⟨e, he, hletter⟩ | ⟨hc, -, hnot⟩ := escapeChar_cases hquote c
    · rw [he, List.cons_append, List.singleton_append, Escape.resolve]
      simp only [hletter, ih]
      rfl
    · rw [hc, List.singleton_append, Escape.resolve, ih]
      · rfl
      · exact fun h _ => hnot h
      · exact fun _ _ h _ => hnot h

/-- A literal stands for the text that the characters between its quotes do. -/
theorem unquote_of_resolve {quote : Char} (hquote : IsQuote quote) {body : List Char}
    {text : String} (h : Escape.resolve body = .ok text.toList) :
    unquote (String.ofList (quote :: (body ++ [quote]))) = .ok text := by
  have hstrip : Escape.stripQuotes (quote :: (body ++ [quote])) = body := by
    rw [Escape.stripQuotes, if_pos ⟨hquote, List.getLast?_concat⟩, List.dropLast_concat]
  rw [unquote, String.toList_ofList, hstrip, h]
  exact congrArg Except.ok String.ofList_toList

/-- **A literal in canonical form stands for its text.** -/
theorem unquote_quoted {quote : Char} (hquote : IsQuote quote) (text : String) :
    unquote (String.ofList (quoted quote text.toList)) = .ok text :=
  unquote_of_resolve hquote (resolve_escape hquote text.toList)

namespace Piece

/-- A string literal. -/
def string (text : String) : Piece := ⟨.string, String.ofList (quoted '"' text.toList)⟩

/-- A character literal, if the text is one character. -/
def char (text : String) : Piece := ⟨.char, String.ofList (quoted '\'' text.toList)⟩

/-- A literal with its escapes is read to the closing quote and no further. -/
theorem quotedBehind_quoted {quote : Char} (hquote : IsQuote quote) (kind : Kind)
    (cs rest : List Char) :
    Lexeme.quotedBehind kind [] quote (cs.flatMap (escapeChar quote) ++ quote :: rest) =
      (.whole (.token kind (quoted quote cs)) (quoted quote cs), rest) := by
  rw [Lexeme.quotedBehind, quotedTail_escape hquote]
  rfl

/-- Strings are legible. -/
theorem legible_string (text : String) : (string text).Legible := by
  refine legible_of_first? String.toList_ofList Kind.noConfusion fun rest => ?_
  have hfirst (cs : List Char) :
      Lexeme.first? ('"' :: cs) = some (Lexeme.quotedBehind .string [] '"' cs) := rfl
  rw [quoted, List.cons_append, List.append_assoc, List.singleton_append, hfirst,
    quotedBehind_quoted (.inl rfl)]
  exact ⟨_, rfl, rfl⟩

/-- What stands for a character opens a character literal. -/
theorem opensChar_escapeChar (c : Char) (rest : List Char) :
    Lexeme.opensChar (escapeChar '\'' c ++ '\'' :: rest) := by
  obtain ⟨e, he, -⟩ | ⟨hc, -, hnot⟩ := escapeChar_cases (.inr rfl) c
  · rw [he]
    rfl
  · rw [hc, List.singleton_append]
    unfold Lexeme.opensChar
    split <;> simp_all

/-- A quote that opens a character literal is read as one. -/
theorem first?_of_opensChar {cs : List Char} (h : Lexeme.opensChar cs) :
    Lexeme.first? ('\'' :: cs) = some (Lexeme.quotedBehind .char [] '\'' cs) := by
  have hlayout : Lexeme.layout? ('\'' :: cs) = none := rfl
  have hline : Lexeme.lineComment? ('\'' :: cs) = none := by simp [Lexeme.lineComment?.eq_def]
  have hblock : Lexeme.blockComment? ('\'' :: cs) = none := by simp [Lexeme.blockComment?.eq_def]
  have hraw : Lexeme.rawString? ('\'' :: cs) = none := by simp [Lexeme.rawString?.eq_def]
  have hbytes : Lexeme.bytes? ('\'' :: cs) = none := by simp [Lexeme.bytes?.eq_def]
  have hrawWord : Lexeme.rawWord? ('\'' :: cs) = none := by simp [Lexeme.rawWord?.eq_def]
  have hstring : Lexeme.string? ('\'' :: cs) = none := by simp [Lexeme.string?.eq_def]
  have hsingle : Lexeme.single? ('\'' :: cs) = some (Lexeme.quotedBehind .char [] '\'' cs) := by
    rw [Lexeme.single?, if_pos h]
  simp only [Lexeme.first?, Lexeme.readers, List.findSome?_cons, hlayout, hline, hblock, hraw,
    hbytes, hrawWord, hstring, hsingle]

/-- Characters are legible. -/
theorem legible_char {text : String} {c : Char} (h : text.toList = [c]) : (char text).Legible := by
  refine legible_of_first? String.toList_ofList Kind.noConfusion fun rest => ?_
  rw [h, quoted, List.cons_append, List.append_assoc, List.singleton_append, first?_of_opensChar,
    quotedBehind_quoted (.inr rfl)]
  · exact ⟨_, rfl, rfl⟩
  · rw [List.flatMap_singleton]
    exact opensChar_escapeChar c (' ' :: rest)

end Piece

end Rust
end Ferrotype

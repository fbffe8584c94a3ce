/-
# Tokens

A token is a kind, a text and the position where it starts. Twelve words are keywords; every other
word is an identifier. Punctuation is cut into single characters, but for `::`, `->` and `=>`. A
character that opens no other token is a token of its own, so that groups of brackets stay
balanced in code that is only skipped.
-/

import Ferrotype.Position

namespace Ferrotype
namespace Rust

/-- What a token is. -/
inductive Kind
  | struct | enum | const | type | pub | whereWord | fn | dyn | impl | mutWord
  | trueWord | falseWord
  | hash | bang | ampersand | star | minus | plus | eq | lt | gt | colon | colonColon | arrow
  | fatArrow | question | pipe | other
  | lparen | rparen | lbrace | rbrace | lbracket | rbracket | semicolon | comma | dot
  | number | string | char | lifetime | identifier
  | doc | eof
deriving Repr, DecidableEq, Inhabited

namespace Kind

/-- The name of a kind in messages. -/
def name : Kind → String
  | struct => "STRUCT" | enum => "ENUM" | const => "CONST" | type => "TYPE" | pub => "PUB"
  | whereWord => "WHERE" | fn => "FN" | dyn => "DYN" | impl => "IMPL" | mutWord => "MUT"
  | trueWord => "TRUE" | falseWord => "FALSE"
  | hash => "HASH" | bang => "BANG" | ampersand => "AMPERSAND" | star => "STAR"
  | minus => "MINUS" | plus => "PLUS" | eq => "EQ" | lt => "LT" | gt => "GT"
  | colon => "COLON" | colonColon => "COLON_COLON" | arrow => "ARROW" | fatArrow => "FAT_ARROW"
  | question => "QUESTION" | pipe => "PIPE" | other => "OTHER"
  | lparen => "LPAREN" | rparen => "RPAREN" | lbrace => "LBRACE" | rbrace => "RBRACE"
  | lbracket => "LBRACKET" | rbracket => "RBRACKET" | semicolon => "SEMICOLON"
  | comma => "COMMA" | dot => "DOT"
  | number => "NUMBER" | string => "STRING_LITERAL" | char => "CHAR_LITERAL"
  | lifetime => "LIFETIME" | identifier => "IDENTIFIER"
  | doc => "DOC_COMMENT" | eof => "EOF"

/-- The words that are keywords. Words that no declaration needs are identifiers. -/
def keywords : List (List Char × Kind) :=
  [("struct".toList, struct), ("enum".toList, enum), ("const".toList, const),
   ("type".toList, type), ("pub".toList, pub), ("where".toList, whereWord), ("fn".toList, fn),
   ("dyn".toList, dyn), ("impl".toList, impl), ("mut".toList, mutWord),
   ("true".toList, trueWord), ("false".toList, falseWord)]

/-- The kind of a word. -/
def ofWord (word : List Char) : Kind := (keywords.lookup word).getD identifier

/-- The punctuation of two characters. -/
def ofPair? : Char → Char → Option Kind
  | ':', ':' => some colonColon
  | '-', '>' => some arrow
  | '=', '>' => some fatArrow
  | _, _ => none

/-- The punctuation of one character. -/
def marks : List (Char × Kind) :=
  [('#', hash), ('!', bang), ('&', ampersand), ('*', star), ('-', minus), ('+', plus), ('=', eq),
   ('<', lt), ('>', gt), (':', colon), ('?', question), ('|', pipe), ('(', lparen),
   (')', rparen), ('{', lbrace), ('}', rbrace), ('[', lbracket), (']', rbracket),
   (';', semicolon), (',', comma), ('.', dot)]

/-- The kind of a character that stands alone. -/
def ofMark (c : Char) : Kind := (marks.lookup c).getD other

/-- Whether a kind opens a group of brackets. -/
def opens : Kind → Bool
  | lparen | lbrace | lbracket => true
  | _ => false

/-- Whether a kind closes a group of brackets. -/
def closes : Kind → Bool
  | rparen | rbrace | rbracket => true
  | _ => false

end Kind

/-- A token: what it is, its text and where it starts. -/
@[ext]
structure Token where
  kind : Kind
  text : String
  pos : Position
deriving Repr, DecidableEq, Inhabited

namespace Token

/-- The token that stands for the end of a source. -/
def eof (pos : Position) : Token := ⟨.eof, "", pos⟩

end Token

end Rust
end Ferrotype

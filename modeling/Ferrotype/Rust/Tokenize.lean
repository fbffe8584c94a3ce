/-
# From lexemes to tokens

Each lexeme gives its tokens at the position where it starts: none for layout and comments, one for
literals, words and punctuation, and one per line for a documentation comment in block form. The
end of a source is a position, and the parser sees it as a token of its own kind.

A block is cut into lines; its first and its last line are left out if they are blank and others
remain. A line loses the white space at its ends and a star at its start, or keeps one blank of its
indentation.
-/

import Ferrotype.Rust.Lexeme
import Ferrotype.Text.Pieces
import Ferrotype.Unicode.Blank

namespace Ferrotype
namespace Rust

/-! ## Documentation blocks -/

/-- Whether a line holds only white space. -/
def isBlankLine (line : List Char) : Bool := line.all Unicode.isBlank

/-- The lines without a blank first one, unless it is the only one. -/
def dropBlankFirst : List (List Char) → List (List Char)
  | line :: next :: lines => if isBlankLine line then next :: lines else line :: next :: lines
  | lines => lines

/-- The lines of a documentation block. -/
def blockDocLines (content : List Char) : List (List Char) :=
  (dropBlankFirst (dropBlankFirst (Text.splitAt '\n' content)).reverse).reverse

/-- The text of a line of a documentation block. -/
def blockDocText (line : List Char) : List Char :=
  match Unicode.trim line with
  | '*' :: text => Unicode.trimEnd text
  | text => if line.head? = some ' ' then Unicode.trimEnd (' ' :: text) else text

/-- The text of a documentation comment that ends with its line, without carriage returns at its
end. -/
def lineDocText (content : List Char) : List Char :=
  (content.reverse.dropWhile (· == '\r')).reverse

/-! ## Tokens -/

namespace Lexeme

/-- The position after a lexeme. -/
def finish (lexeme : Lexeme) (p : Position) : Position :=
  let q := p.after lexeme.text
  if lexeme.overruns then ⟨q.line, q.column + 1⟩ else q

/-- The tokens that a lexeme gives when it starts at a position. -/
def tokens (lexeme : Lexeme) (p : Position) : List Token :=
  match lexeme.shape with
  | .blank => []
  | .lineDoc content => [⟨.doc, String.ofList (lineDocText content), p⟩]
  | .blockDoc content =>
    (blockDocLines content).zipIdx.map fun (line, i) =>
      ⟨.doc, String.ofList (blockDocText line), ⟨p.line + i, p.column⟩⟩
  | .token kind value => [⟨kind, String.ofList value, p⟩]

end Lexeme

/-- The tokens of a source and the position where it ends. -/
@[ext]
structure TokenStream where
  tokens : List Token
  finish : Position
deriving Repr, DecidableEq

namespace TokenStream

/-- The token that stands for the end. -/
def eof (stream : TokenStream) : Token := Token.eof stream.finish

/-- All tokens, with the end as the last one. -/
def toList (stream : TokenStream) : List Token := stream.tokens ++ [stream.eof]

/-- The tokens of lexemes that start at a position. -/
def ofLexemes (p : Position) : List Lexeme → TokenStream
  | [] => ⟨[], p⟩
  | lexeme :: rest =>
    let stream := ofLexemes (lexeme.finish p) rest
    ⟨lexeme.tokens p ++ stream.tokens, stream.finish⟩

end TokenStream

/-- The tokens of a source. -/
def tokenize (source : String) : TokenStream :=
  TokenStream.ofLexemes Position.start (lexemes source.toList)

end Rust
end Ferrotype

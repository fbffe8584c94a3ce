/-
# Lexemes

A source is cut from left to right into lexemes: runs of layout, comments, literals, words, numbers
and punctuation. Each lexeme keeps its text, so the texts of the lexemes put together are the
source. `readers` lists the ways to read a lexeme in the order in which they are tried;
every reader returns a non-empty text and what is left.

* A block comment may hold block comments.
* A literal runs to its closing quote, or to the end of the source.
* A raw literal runs to a quote with as many hashes as it was opened with.
* A quote opens a character literal if a backslash or a closing quote decides for it, otherwise a
  lifetime.

`text_append_of_first?` says that a lexeme and the rest make up the source again, and
`flatMap_text_lexemes` says the same of all lexemes.
-/

import Ferrotype.Rust.Token
import Ferrotype.Unicode.Letter
import Ferrotype.Unicode.Digit

namespace Ferrotype
namespace Rust

/-- What a lexeme gives to the token list. -/
inductive Shape
  /-- Layout and ordinary comments give no token. -/
  | blank
  /-- A documentation comment that ends with its line, by what follows the slashes. -/
  | lineDoc (content : List Char)
  /-- A documentation comment in block form, by what stands between its delimiters. -/
  | blockDoc (content : List Char)
  /-- One token with the given text. -/
  | token (kind : Kind) (value : List Char)
deriving Repr, DecidableEq

/-- A piece of a source. -/
structure Lexeme where
  shape : Shape
  text : List Char
  /-- The source ends where the lexeme needs one more character. The end of the source is then
  reported one column further. -/
  overruns : Bool
deriving Repr, DecidableEq

namespace Lexeme

/-- A lexeme that the source holds in full. -/
def whole (shape : Shape) (text : List Char) : Lexeme := ⟨shape, text, false⟩

@[simp] theorem text_whole (shape : Shape) (text : List Char) :
    (whole shape text).text = text := rfl

/-! ## The parts of literals and comments -/

/-- Whether a character is layout. -/
def isLayout (c : Char) : Bool := c == ' ' || c == '\t' || c == '\r' || c == '\n'

/-- Whether a character is a digit or an underscore inside a number. -/
def isNumberDigit (c : Char) : Bool := c.isDigit || c == '_'

/-- What follows the opening of a literal or a comment: the content, the delimiter that closes it
(empty at the end of the source) and the rest. -/
structure Enclosed where
  content : List Char
  closing : List Char
  rest : List Char
deriving Repr, DecidableEq

namespace Enclosed

/-- The text that was read. -/
def text (e : Enclosed) : List Char := e.content ++ e.closing

/-- The same with more content in front. -/
def after (e : Enclosed) (cs : List Char) : Enclosed := { e with content := cs ++ e.content }

@[simp] theorem text_after (e : Enclosed) (cs : List Char) : (e.after cs).text = cs ++ e.text := by
  simp [text, after]

@[simp] theorem rest_after (e : Enclosed) (cs : List Char) : (e.after cs).rest = e.rest := rfl

end Enclosed

/-- What follows the opening quote of a literal. A backslash takes the next character with it. -/
def quotedTail (quote : Char) : List Char → Enclosed
  | [] => ⟨[], [], []⟩
  | ['\\'] => ⟨['\\'], [], []⟩
  | '\\' :: c :: cs => (quotedTail quote cs).after ['\\', c]
  | c :: cs => if c = quote then ⟨[], [c], cs⟩ else (quotedTail quote cs).after [c]

/-- Nothing of a literal is lost. -/
theorem quotedTail_append (quote : Char) (cs : List Char) :
    (quotedTail quote cs).text ++ (quotedTail quote cs).rest = cs := by
  fun_induction quotedTail quote cs with
  | case1 => rfl
  | case2 => rfl
  | case3 c cs ih => simp [ih]
  | case4 => rfl
  | case5 c cs _ _ _ ih => simp [ih]

/-- Whether a text ends with a backslash that has no character to take. -/
def endsInEscape : List Char → Bool
  | [] => false
  | ['\\'] => true
  | '\\' :: _ :: cs => endsInEscape cs
  | _ :: cs => endsInEscape cs

/-- What follows the opening quote of a raw literal. -/
def rawTail (hashes : Nat) : List Char → Enclosed
  | [] => ⟨[], [], []⟩
  | c :: cs =>
    if c = '"' ∧ (List.replicate hashes '#').isPrefixOf cs then
      ⟨[], '"' :: List.replicate hashes '#', cs.drop hashes⟩
    else (rawTail hashes cs).after [c]

/-- Nothing of a raw literal is lost. -/
theorem rawTail_append (hashes : Nat) (cs : List Char) :
    (rawTail hashes cs).text ++ (rawTail hashes cs).rest = cs := by
  fun_induction rawTail hashes cs with
  | case1 => rfl
  | case2 c cs h =>
    obtain ⟨rfl, h⟩ := h
    obtain ⟨rest, rfl⟩ := List.isPrefixOf_iff_prefix.1 h
    simp [Enclosed.text]
  | case3 c cs _ ih => simp [ih]

/-- What follows the opening of a block comment with `depth` comments open inside it. -/
def blockTail : Nat → List Char → Enclosed
  | _, [] => ⟨[], [], []⟩
  | depth, '/' :: '*' :: cs => (blockTail (depth + 1) cs).after ['/', '*']
  | 0, '*' :: '/' :: cs => ⟨[], ['*', '/'], cs⟩
  | depth + 1, '*' :: '/' :: cs => (blockTail depth cs).after ['*', '/']
  | depth, c :: cs => (blockTail depth cs).after [c]

/-- Nothing of a comment is lost. -/
theorem blockTail_append (depth : Nat) (cs : List Char) :
    (blockTail depth cs).text ++ (blockTail depth cs).rest = cs := by
  fun_induction blockTail depth cs with
  | case1 => rfl
  | case2 depth cs ih => simp [ih]
  | case3 => rfl
  | case4 depth cs ih => simp [ih]
  | case5 depth c cs _ _ _ ih => simp [ih]

/-- A text cut after its longest run of characters with a property. -/
def run (p : Char → Bool) (cs : List Char) : List Char × List Char :=
  (cs.takeWhile p, cs.dropWhile p)

/-- A run and what follows it are the text. -/
theorem run_append (p : Char → Bool) (cs : List Char) : (run p cs).1 ++ (run p cs).2 = cs := by
  simp [run]

/-- The decimal point and the digits after it, if a digit follows the point. -/
def fraction : List Char → List Char × List Char
  | '.' :: c :: cs =>
    if c.isDigit then ('.' :: (run isNumberDigit (c :: cs)).1, (run isNumberDigit (c :: cs)).2)
    else ([], '.' :: c :: cs)
  | cs => ([], cs)

/-- A fraction and what follows it are the text. -/
theorem fraction_append (cs : List Char) : (fraction cs).1 ++ (fraction cs).2 = cs := by
  fun_cases fraction cs <;> simp [run_append]

/-- Whether a text starts with a digit. -/
def startsWithDigit : List Char → Bool
  | [] => false
  | c :: _ => Unicode.isDigit c

/-- The exponent of a number: an `e`, a sign if there is one, and the digits. -/
def exponent : List Char → List Char × List Char
  | [] => ([], [])
  | e :: cs =>
    if (e = 'e' ∨ e = 'E') ∧ startsWithDigit cs then
      (e :: (run isNumberDigit cs).1, (run isNumberDigit cs).2)
    else match cs with
      | [] => ([], [e])
      | sign :: ds =>
        if (e = 'e' ∨ e = 'E') ∧ (sign = '+' ∨ sign = '-') ∧ startsWithDigit ds then
          (e :: sign :: (run isNumberDigit ds).1, (run isNumberDigit ds).2)
        else ([], e :: sign :: ds)

/-- An exponent and what follows it are the text. -/
theorem exponent_append (cs : List Char) : (exponent cs).1 ++ (exponent cs).2 = cs := by
  fun_cases exponent cs <;> simp [run_append]

/-- What follows the first digit of a number: digits, fraction, exponent and suffix. -/
def numberTail (cs : List Char) : List Char × List Char :=
  let digits := run isNumberDigit cs
  let fractional := fraction digits.2
  let power := exponent fractional.2
  let suffix := run Unicode.isWordChar power.2
  (digits.1 ++ fractional.1 ++ power.1 ++ suffix.1, suffix.2)

/-- The parts of a number and what follows them are the text. -/
theorem numberTail_append (cs : List Char) : (numberTail cs).1 ++ (numberTail cs).2 = cs := by
  simp only [numberTail, List.append_assoc]
  rw [run_append, exponent_append, fraction_append, run_append]

/-- Whether the letter behind a zero announces hexadecimal, octal or binary digits. -/
def isRadix (c : Char) : Bool := c == 'x' || c == 'o' || c == 'b'

/-- A number without its first digit. Behind `0x`, `0o` and `0b`, and behind a digit outside ASCII,
it goes on as a word does. -/
def numberRest (first : Char) (cs : List Char) : List Char × List Char :=
  if !first.isDigit || first == '0' && cs.head?.any isRadix then run Unicode.isWordChar cs
  else numberTail cs

/-- A number and what follows it are the text. -/
theorem numberRest_append (first : Char) (cs : List Char) :
    (numberRest first cs).1 ++ (numberRest first cs).2 = cs := by
  unfold numberRest
  split
  · exact run_append _ _
  · exact numberTail_append cs

/-! ## The readers -/

/-- A reader: a lexeme at the start of a text and what is left, if the text starts with one. -/
abbrev Reader := List Char → Option (Lexeme × List Char)

/-- A run of layout. -/
def layout? : Reader
  | [] => none
  | c :: cs =>
    if isLayout c then some (whole .blank (c :: (run isLayout cs).1), (run isLayout cs).2) else none

/-- A comment that ends with its line. Three slashes, but not four, make it documentation. -/
def lineComment? : Reader
  | '/' :: '/' :: cs =>
    let content := run (· != '\n') cs
    let shape := match cs with
      | '/' :: '/' :: _ => .blank
      | '/' :: _ => .lineDoc (content.1.drop 1)
      | _ => .blank
    some (whole shape ('/' :: '/' :: content.1), content.2)
  | _ => none

/-- Whether what follows `/*` makes a comment documentation: a star, and no star or slash after
it. -/
def opensBlockDoc : List Char → Bool
  | '*' :: '*' :: _ => false
  | '*' :: '/' :: _ => false
  | '*' :: _ => true
  | _ => false

/-- A comment between delimiters. -/
def blockComment? : Reader
  | '/' :: '*' :: cs =>
    if opensBlockDoc cs then
      let body := blockTail 0 (cs.drop 1)
      some (whole (.blockDoc body.content) ('/' :: '*' :: cs.take 1 ++ body.text), body.rest)
    else
      let body := blockTail 0 cs
      some (whole .blank ('/' :: '*' :: body.text), body.rest)
  | _ => none

/-- The literal between ordinary quotes that stands for a raw body. -/
def ofRawBody (body : List Char) : List Char :=
  '"' :: body.flatMap (fun c =>
    if c = '\\' then ['\\', '\\'] else if c = '"' then ['\\', '"'] else [c]) ++ ['"']

/-- A raw literal behind the letters that announce it: hashes, one more character (the quote), and
the body. -/
def rawBehind (letters : List Char) (cs : List Char) : Lexeme × List Char :=
  let hashes := run (· == '#') cs
  let body := rawTail hashes.1.length (hashes.2.drop 1)
  (⟨.token .string (ofRawBody body.content), letters ++ hashes.1 ++ hashes.2.take 1 ++ body.text,
    hashes.2.isEmpty⟩, body.rest)

/-- Whether a raw literal starts behind `r`. -/
def opensRaw : List Char → Bool
  | '"' :: _ => true
  | '#' :: c :: _ => c == '"' || c == '#'
  | _ => false

/-- Whether a raw byte literal starts behind `br`. -/
def opensRawBytes : List Char → Bool
  | '"' :: _ => true
  | '#' :: _ => true
  | _ => false

/-- A raw literal, of text or of bytes. -/
def rawString? : Reader
  | 'r' :: cs => if opensRaw cs then some (rawBehind ['r'] cs) else none
  | 'b' :: 'r' :: cs => if opensRawBytes cs then some (rawBehind ['b', 'r'] cs) else none
  | _ => none

/-- A literal behind its opening quote and the letters before that; the letters are no part of the
token. -/
def quotedBehind (kind : Kind) (letters : List Char) (quote : Char) (cs : List Char) :
    Lexeme × List Char :=
  let body := quotedTail quote cs
  (⟨.token kind (quote :: body.text), letters ++ quote :: body.text,
    body.closing.isEmpty && endsInEscape body.content⟩, body.rest)

/-- A byte or a byte string. -/
def bytes? : Reader
  | 'b' :: '"' :: cs => some (quotedBehind .string ['b'] '"' cs)
  | 'b' :: '\'' :: cs => some (quotedBehind .char ['b'] '\'' cs)
  | _ => none

/-- A raw identifier; its token is the word behind `r#`. -/
def rawWord? : Reader
  | 'r' :: '#' :: c :: cs =>
    if Unicode.isWordStart c then
      let word := run Unicode.isWordChar (c :: cs)
      some (whole (.token .identifier word.1) ('r' :: '#' :: word.1), word.2)
    else none
  | _ => none

/-- A string literal. -/
def string? : Reader
  | '"' :: cs => some (quotedBehind .string [] '"' cs)
  | _ => none

/-- Whether what follows a single quote makes it open a character literal. -/
def opensChar : List Char → Bool
  | '\\' :: _ => true
  | _ :: '\'' :: _ => true
  | _ => false

/-- A character literal or a lifetime. -/
def single? : Reader
  | '\'' :: cs =>
    if opensChar cs then some (quotedBehind .char [] '\'' cs)
    else
      let word := run Unicode.isWordChar cs
      some (whole (.token .lifetime ('\'' :: word.1)) ('\'' :: word.1), word.2)
  | _ => none

/-- A number with its suffix. -/
def number? : Reader
  | [] => none
  | c :: cs =>
    if Unicode.isDigit c then
      let more := numberRest c cs
      some (whole (.token .number (c :: more.1)) (c :: more.1), more.2)
    else none

/-- An identifier or a keyword. -/
def word? : Reader
  | [] => none
  | c :: cs =>
    if Unicode.isWordStart c then
      let more := run Unicode.isWordChar cs
      some (whole (.token (Kind.ofWord (c :: more.1)) (c :: more.1)) (c :: more.1), more.2)
    else none

/-- Punctuation of two characters. -/
def pair? : Reader
  | c :: d :: cs => (Kind.ofPair? c d).map fun kind => (whole (.token kind [c, d]) [c, d], cs)
  | _ => none

/-- Any other character. -/
def mark? : Reader
  | [] => none
  | c :: cs => some (whole (.token (Kind.ofMark c) [c]) [c], cs)

/-- The readers, in the order in which they are tried. -/
def readers : List Reader :=
  [layout?, lineComment?, blockComment?, rawString?, bytes?, rawWord?, string?, single?, number?,
   word?, pair?, mark?]

/-- The lexeme at the start of a text and what is left. -/
def first? (cs : List Char) : Option (Lexeme × List Char) := readers.findSome? (· cs)

/-! ## A lexeme and the rest make up the source -/

/-- What a reader owes: a non-empty lexeme which, put before the rest, gives the text again. -/
def Faithful (reader : Reader) : Prop :=
  ∀ {cs lexeme rest}, reader cs = some (lexeme, rest) → lexeme.text ++ rest = cs ∧ lexeme.text ≠ []

/-- The reader of layout. -/
theorem layout?_faithful : Faithful layout? := by
  intro cs lexeme rest
  fun_cases layout? cs <;>
    simp only [reduceCtorEq, false_implies, Option.some.injEq, Prod.mk.injEq]
  rintro ⟨rfl, rfl⟩
  exact ⟨congrArg _ (run_append _ _), List.cons_ne_nil _ _⟩

/-- The reader of comments that end with their line. -/
theorem lineComment?_faithful : Faithful lineComment? := by
  intro cs lexeme rest
  fun_cases lineComment? cs <;>
    simp only [reduceCtorEq, false_implies, Option.some.injEq, Prod.mk.injEq]
  rintro ⟨rfl, rfl⟩
  exact ⟨congrArg ('/' :: '/' :: ·) (run_append _ _), List.cons_ne_nil _ _⟩

/-- The reader of comments between delimiters. -/
theorem blockComment?_faithful : Faithful blockComment? := by
  intro cs lexeme rest
  fun_cases blockComment? cs <;>
    simp only [reduceCtorEq, false_implies, Option.some.injEq, Prod.mk.injEq]
  · rintro ⟨rfl, rfl⟩
    refine ⟨?_, List.cons_ne_nil _ _⟩
    simp only [text_whole, List.cons_append, List.append_assoc]
    rw [blockTail_append, List.take_append_drop]
  · rintro ⟨rfl, rfl⟩
    exact ⟨congrArg ('/' :: '*' :: ·) (blockTail_append _ _), List.cons_ne_nil _ _⟩

/-- Nothing of a raw literal behind its letters is lost. -/
theorem rawBehind_append (letters cs : List Char) :
    (rawBehind letters cs).1.text ++ (rawBehind letters cs).2 = letters ++ cs := by
  simp only [rawBehind, List.append_assoc]
  rw [rawTail_append, List.take_append_drop, run_append]

/-- Nothing of a literal behind its letters is lost. -/
theorem quotedBehind_append (kind : Kind) (letters : List Char) (quote : Char) (cs : List Char) :
    (quotedBehind kind letters quote cs).1.text ++ (quotedBehind kind letters quote cs).2 =
      letters ++ quote :: cs := by
  simp [quotedBehind, quotedTail_append]

/-- The reader of raw literals. -/
theorem rawString?_faithful : Faithful rawString? := by
  intro cs lexeme rest
  fun_cases rawString? cs <;> simp
  all_goals
    intro h
    have happend := congrArg (fun r => r.1.text ++ r.2) h
    simp only [rawBehind_append] at happend
    refine ⟨by simp [← happend], ?_⟩
    rw [← congrArg (·.1.text) h]
    simp [rawBehind]

/-- The reader of bytes and strings of bytes. -/
theorem bytes?_faithful : Faithful bytes? := by
  intro cs lexeme rest
  fun_cases bytes? cs <;> simp
  all_goals
    intro h
    have happend := congrArg (fun r => r.1.text ++ r.2) h
    simp only [quotedBehind_append] at happend
    refine ⟨by simp [← happend], ?_⟩
    rw [← congrArg (·.1.text) h]
    simp [quotedBehind]

/-- The reader of raw words. -/
theorem rawWord?_faithful : Faithful rawWord? := by
  intro cs lexeme rest
  fun_cases rawWord? cs <;>
    simp only [reduceCtorEq, false_implies, Option.some.injEq, Prod.mk.injEq]
  rintro ⟨rfl, rfl⟩
  exact ⟨congrArg ('r' :: '#' :: ·) (run_append _ _), List.cons_ne_nil _ _⟩

/-- The reader of strings. -/
theorem string?_faithful : Faithful string? := by
  intro cs lexeme rest
  fun_cases string? cs <;> simp
  intro h
  have happend := congrArg (fun r => r.1.text ++ r.2) h
  simp only [quotedBehind_append] at happend
  refine ⟨by simp [← happend], ?_⟩
  rw [← congrArg (·.1.text) h]
  simp [quotedBehind]

/-- The reader of characters and lifetimes. -/
theorem single?_faithful : Faithful single? := by
  intro cs lexeme rest
  fun_cases single? cs <;> simp
  · intro h
    have happend := congrArg (fun r => r.1.text ++ r.2) h
    simp only [quotedBehind_append] at happend
    refine ⟨by simp [← happend], ?_⟩
    rw [← congrArg (·.1.text) h]
    simp [quotedBehind]
  · rintro rfl rfl
    exact ⟨congrArg ('\'' :: ·) (run_append _ _), List.cons_ne_nil _ _⟩

/-- The reader of numbers. -/
theorem number?_faithful : Faithful number? := by
  intro cs lexeme rest
  fun_cases number? cs <;>
    simp only [reduceCtorEq, false_implies, Option.some.injEq, Prod.mk.injEq]
  rintro ⟨rfl, rfl⟩
  exact ⟨congrArg _ (numberRest_append _ _), List.cons_ne_nil _ _⟩

/-- The reader of words. -/
theorem word?_faithful : Faithful word? := by
  intro cs lexeme rest
  fun_cases word? cs <;>
    simp only [reduceCtorEq, false_implies, Option.some.injEq, Prod.mk.injEq]
  rintro ⟨rfl, rfl⟩
  exact ⟨congrArg _ (run_append _ _), List.cons_ne_nil _ _⟩

/-- The reader of punctuation of two characters. -/
theorem pair?_faithful : Faithful pair? := by
  intro cs lexeme rest
  fun_cases pair? cs <;> simp
  rintro kind - rfl rfl
  simp

/-- The reader of any other character. -/
theorem mark?_faithful : Faithful mark? := by
  intro cs lexeme rest
  fun_cases mark? cs <;> simp
  rintro rfl rfl
  simp

/-- All readers are faithful. -/
theorem faithful_of_mem_readers {reader : Reader} (h : reader ∈ readers) : Faithful reader := by
  simp only [readers, List.mem_cons, List.not_mem_nil, or_false] at h
  rcases h with rfl | rfl | rfl | rfl | rfl | rfl | rfl | rfl | rfl | rfl | rfl | rfl
  · exact layout?_faithful
  · exact lineComment?_faithful
  · exact blockComment?_faithful
  · exact rawString?_faithful
  · exact bytes?_faithful
  · exact rawWord?_faithful
  · exact string?_faithful
  · exact single?_faithful
  · exact number?_faithful
  · exact word?_faithful
  · exact pair?_faithful
  · exact mark?_faithful

/-- So is the first one that reads something. -/
theorem first?_faithful : Faithful first? := by
  intro cs lexeme rest h
  obtain ⟨reader, hmem, hreader⟩ := List.exists_of_findSome?_eq_some h
  exact faithful_of_mem_readers hmem hreader

/-- A lexeme and the rest make up the text. -/
theorem text_append_of_first? {cs rest : List Char} {lexeme : Lexeme}
    (h : first? cs = some (lexeme, rest)) : lexeme.text ++ rest = cs :=
  (first?_faithful h).1

/-- Behind a lexeme less is left. -/
theorem length_lt_of_first? {cs rest : List Char} {lexeme : Lexeme}
    (h : first? cs = some (lexeme, rest)) : rest.length < cs.length := by
  obtain ⟨rfl, hne⟩ := first?_faithful h
  have := List.length_pos_iff.2 hne
  simp only [List.length_append]
  omega

/-- Only the empty text starts with no lexeme. -/
theorem first?_eq_none_iff {cs : List Char} : first? cs = none ↔ cs = [] := by
  constructor
  · intro hnone
    have hmark := List.findSome?_eq_none_iff.1 hnone mark? (by simp [readers])
    cases cs with
    | nil => rfl
    | cons c cs => simp [mark?] at hmark
  · rintro rfl
    rfl

end Lexeme

/-- The lexemes of a source, in order. -/
def lexemes (cs : List Char) : List Lexeme :=
  match _h : Lexeme.first? cs with
  | none => []
  | some (lexeme, rest) => lexeme :: lexemes rest
termination_by cs.length
decreasing_by exact Lexeme.length_lt_of_first? _h

/-- An empty source has no lexemes. -/
@[simp] theorem lexemes_nil : lexemes [] = [] := by
  rw [lexemes]
  rfl

/-- The lexemes of a source are the first one and those of the rest. -/
theorem lexemes_of_first? {cs rest : List Char} {lexeme : Lexeme}
    (h : Lexeme.first? cs = some (lexeme, rest)) : lexemes cs = lexeme :: lexemes rest := by
  rw [lexemes]
  split
  · simp_all
  · simp_all

/-- The texts of the lexemes make up the source. -/
theorem flatMap_text_lexemes (cs : List Char) : (lexemes cs).flatMap (·.text) = cs := by
  fun_induction lexemes cs with
  | case1 cs h => simp [Lexeme.first?_eq_none_iff.1 h]
  | case2 cs lexeme rest h ih => simp [ih, Lexeme.text_append_of_first? h]

end Rust
end Ferrotype

/-
# Numeric literals

A numeric literal is a whole number with a prefix for its base, or a decimal number with an optional
fraction and an optional exponent. Underscores stand between the digits and behind them, and a
suffix may name the type.

A literal is one number among the tokens (`isNumeral_chars`) unless its point has no digit behind it
or an underscore follows the sign of its exponent; such a literal is cut there
(`isCutBehindNumber_of_isSplit`).
-/

import Ferrotype.Proofs.Rust.Tokenize.Cut
import Ferrotype.Proofs.Rust.Tokenize.Number
import Ferrotype.Proofs.Text.Digits
import Ferrotype.Rust.Numeral

namespace Ferrotype
namespace Rust

open Text (isDigitOf ofDigits)
open Unicode (isWordChar)
open Lexeme (isNumberDigit isRadix startsWithDigit)

/-! ## Grammar -/

/-- The bases that have a prefix. -/
inductive Radix
  | binary | octal | hexadecimal
deriving Repr, DecidableEq

namespace Radix

/-- The letter behind the zero of the prefix. -/
def letter : Radix → Char
  | binary => 'b' | octal => 'o' | hexadecimal => 'x'

/-- The base that a radix stands for. -/
def base : Radix → Nat
  | binary => 2 | octal => 8 | hexadecimal => 16

end Radix

/-- Whether characters are digits of a base and underscores. -/
def isSpaced (base : Nat) (cs : List Char) : Bool := cs.all fun c => c == '_' || isDigitOf base c

/-- Whether characters are decimal digits and underscores, a digit first. -/
def isDecimal (cs : List Char) : Bool := isSpaced 10 cs && cs.head?.any (isDigitOf 10)

/-- Characters without underscores. -/
def digitsOf (cs : List Char) : List Char := cs.filter (· != '_')

/-- An exponent, with its sign if it has one. -/
structure Exponent where
  letter : Char
  sign : List Char
  digits : List Char
deriving Repr, DecidableEq

namespace Exponent

/-- Whether the characters of an exponent can stand in a literal. -/
def isWritable (e : Exponent) : Bool :=
  (e.letter == 'e' || e.letter == 'E') && [[], ['+'], ['-']].contains e.sign &&
    isSpaced 10 e.digits && e.digits.any (isDigitOf 10)

/-- The characters of an exponent. -/
def chars (e : Exponent) : List Char := e.letter :: (e.sign ++ e.digits)

/-- The number that an exponent denotes. -/
def value (e : Exponent) : ℤ :=
  if e.sign = ['-'] then -ofDigits 10 (digitsOf e.digits) else ofDigits 10 (digitsOf e.digits)

/-- Whether an underscore stands between the sign and the digits. -/
def isParted (e : Exponent) : Bool := !e.sign.isEmpty && e.digits.head? == some '_'

end Exponent

/-- A numeric literal. A fraction without digits is a point alone. -/
inductive NumericLiteral
  | radix (radix : Radix) (digits suffix : List Char)
  | decimal (whole : List Char) (fraction : Option (List Char)) (exponent : Option Exponent)
    (suffix : List Char)
deriving Repr, DecidableEq

namespace NumericLiteral

/-- The characters of a fraction with its point. -/
def fractionChars (fraction : Option (List Char)) : List Char := fraction.elim [] ('.' :: ·)

/-- The characters of an exponent, if there is one. -/
def exponentChars (exponent : Option Exponent) : List Char := exponent.elim [] Exponent.chars

/-- The characters of a literal. -/
def chars : NumericLiteral → List Char
  | radix r digits suffix => '0' :: r.letter :: (digits ++ suffix)
  | decimal whole fraction exponent suffix =>
    whole ++ (fractionChars fraction ++ (exponentChars exponent ++ suffix))

/-- The suffix of a literal, empty if there is none. -/
def suffix : NumericLiteral → List Char
  | radix _ _ suffix => suffix
  | decimal _ _ _ suffix => suffix

/-- Whether a literal is spelled as the grammar asks for: a whole number has the suffix of any type,
any other number that of a floating-point type, and nothing follows a point alone. -/
def isWritable : NumericLiteral → Bool
  | radix r digits suffix =>
    isSpaced r.base digits && digits.any (isDigitOf r.base) &&
      ([] :: Numeral.integerSuffixes).contains suffix
  | decimal whole fraction exponent suffix =>
    isDecimal whole && exponent.all Exponent.isWritable &&
      fraction.all (fun ds =>
        isDecimal ds || ds.isEmpty && exponent.isNone && suffix.isEmpty) &&
      (([] :: Numeral.floatSuffixes).contains suffix ||
        fraction.isNone && exponent.isNone && Numeral.integerSuffixes.contains suffix)

/-- The number that a literal denotes. -/
def value : NumericLiteral → ℚ
  | radix r digits _ => ofDigits r.base (digitsOf digits)
  | decimal whole fraction exponent _ =>
    let places := digitsOf (fraction.getD [])
    (ofDigits 10 (digitsOf whole) + ofDigits 10 places / (10 : ℚ) ^ places.length) *
      (10 : ℚ) ^ exponent.elim 0 Exponent.value

/-- Whether a literal is cut at its point or behind the sign of its exponent. -/
def isSplit : NumericLiteral → Bool
  | radix .. => false
  | decimal _ fraction exponent _ => fraction == some [] || exponent.any Exponent.isParted

/-- Whether a decimal number starts with a zero that another digit follows. -/
def hasSpareZero : NumericLiteral → Bool
  | radix .. => false
  | decimal whole .. => (digitsOf whole).head? == some '0' && 1 < (digitsOf whole).length

end NumericLiteral

/-! ## Characters of literals -/

/-- The digits of every base go on with a word. -/
theorem isWordChar_of_isDigitOf {base : Nat} {c : Char} (h : isDigitOf base c) :
    isWordChar c := by
  have hascii : c.toNat < 128 := Nat.lt_trans (Text.toNat_of_isDigitOf h) (by decide)
  rw [isWordChar, Unicode.isAlphanumeric, if_pos hascii, Text.isAlphanum_of_isDigitOf h,
    Bool.true_or]

/-- Digits and underscores are part of one word. -/
theorem all_isWordChar_of_isSpaced {base : Nat} {cs : List Char} (h : isSpaced base cs) :
    cs.all isWordChar := by
  refine List.all_eq_true.2 fun c hc => ?_
  have hdigit := List.all_eq_true.1 h c hc
  rw [Bool.or_eq_true, beq_iff_eq] at hdigit
  rcases hdigit with rfl | hdigit
  · decide
  · exact isWordChar_of_isDigitOf hdigit

/-- Decimal digits and underscores can stand inside a number. -/
theorem isNumberDigit_of_isSpaced {cs : List Char} (h : isSpaced 10 cs) :
    ∀ c ∈ cs, isNumberDigit c := by
  intro c hc
  have hdigit := List.all_eq_true.1 h c hc
  rwa [Text.isDigitOf_ten, Bool.or_comm] at hdigit

/-- What is no digit and no underscore does not stand among digits. -/
theorem notMem_of_isSpaced {base : Nat} {cs : List Char} (h : isSpaced base cs) {d : Char}
    (hd : Text.Hexadecimal.isDigit d = false) (hunderscore : d ≠ '_') : d ∉ cs := by
  intro hmem
  have hdigit := List.all_eq_true.1 h d hmem
  rw [Bool.or_eq_true, beq_iff_eq] at hdigit
  have hvalue := Text.isDigit_of_isDigitOf (hdigit.resolve_left hunderscore)
  rw [hd] at hvalue
  cases hvalue

/-- A decimal number starts with a digit. -/
theorem exists_cons_of_isDecimal {cs : List Char} (h : isDecimal cs) :
    ∃ d ds, cs = d :: ds ∧ d.isDigit ∧ isSpaced 10 ds := by
  rw [isDecimal, Bool.and_eq_true] at h
  cases cs with
  | nil => exact absurd h.2 Bool.false_ne_true
  | cons d ds =>
    rw [isSpaced, List.all_cons, Bool.and_eq_true] at h
    refine ⟨d, ds, rfl, ?_, h.1.2⟩
    rw [← Text.isDigitOf_ten]
    exact h.2

/-- The suffixes of all types. -/
def suffixes : List (List Char) := Numeral.integerSuffixes ++ Numeral.floatSuffixes

/-- Whether a text goes on neither with digits nor with the letter of a base, of either case. -/
def EndsDigits (cs : List Char) : Prop :=
  ∀ c ∈ cs.head?, isNumberDigit c = false ∧ isRadix c.toLower = false

/-- A suffix is part of a word and does not go on with digits. -/
theorem mem_suffixes {suffix : List Char} (h : suffix ∈ [] :: suffixes) :
    suffix.all isWordChar ∧ EndsDigits suffix := by
  have hall : ∀ suffix ∈ [] :: suffixes, suffix.all isWordChar ∧
      suffix.head?.all fun c => !isNumberDigit c && !isRadix c.toLower := by decide
  obtain ⟨hword, hhead⟩ := hall suffix h
  refine ⟨hword, fun c hc => ?_⟩
  simpa using (Option.all_eq_true _ _).1 hhead c hc

/-! ## Literals are numerals -/

/-- Digits in front of what ends them are dropped. -/
theorem EndsDigits.dropWhile {xs ys : List Char} (hys : EndsDigits ys)
    (hxs : ∀ x ∈ xs, isNumberDigit x) : (xs ++ ys).dropWhile isNumberDigit = ys :=
  (Text.takeWhile_append_of_head? hxs fun c hc => (hys c hc).1).2

/-- What ends digits does so with more behind it. -/
theorem EndsDigits.append {xs ys : List Char} (hxs : EndsDigits xs) (hys : EndsDigits ys) :
    EndsDigits (xs ++ ys) := by
  cases xs with
  | nil => exact hys
  | cons x xs => exact hxs

/-- No digit is the letter of a radix, in capitals or not. -/
theorem isRadix_toLower_of_isNumberDigit {c : Char} (h : isNumberDigit c) :
    isRadix c.toLower = false := by
  have hall : ∀ n < 128, isNumberDigit (Char.ofNat n) → isRadix (Char.ofNat n).toLower = false := by
    decide
  have hnine : '9'.toNat = 57 := rfl
  have hascii : c.toNat < 128 := by
    rw [isNumberDigit, Bool.or_eq_true, beq_iff_eq, Char.isDigit_iff_toNat] at h
    rcases h with h | rfl
    · omega
    · decide
  have hc := hall c.toNat hascii
  rw [Char.ofNat_toNat] at hc
  exact hc h

/-- Digits announce no base. -/
theorem not_isRadix_append {xs ys : List Char} (hxs : ∀ x ∈ xs, isNumberDigit x)
    (hys : EndsDigits ys) : ∀ c ∈ (xs ++ ys).head?, isRadix c.toLower = false := by
  cases xs with
  | nil => exact fun c hc => (hys c hc).2
  | cons x xs =>
    rintro _ ⟨⟩
    exact isRadix_toLower_of_isNumberDigit (hxs x List.mem_cons_self)

/-- The letter of a radix is one in its small form, too. -/
theorem isRadix_toLower {c : Char} (h : isRadix c) : isRadix c.toLower := by
  simp only [isRadix, Bool.or_eq_true, beq_iff_eq] at h
  rcases h with (rfl | rfl) | rfl <;> decide

/-- The digits of a number and what can follow them make up a numeral. -/
theorem isNumeral_digits {d : Char} (hd : d.isDigit) {ds tail : List Char}
    (hds : isSpaced 10 ds) (htail : EndsDigits tail) (h : isFraction tail) :
    isNumeral (d :: (ds ++ tail)) := by
  have hdigits := isNumberDigit_of_isSpaced hds
  have hnone : (ds ++ tail).head?.any isRadix = false := by
    cases hhead : (ds ++ tail).head? with
    | none => rfl
    | some c =>
      have hlower := not_isRadix_append hdigits htail c hhead
      rw [Option.any_some, Bool.eq_false_iff]
      intro hradix
      rw [isRadix_toLower hradix] at hlower
      cases hlower
  rw [isNumeral, Unicode.isDigit_of_ascii hd, Bool.true_and, hd, hnone, Bool.and_false,
    Bool.not_true, Bool.or_false, if_neg Bool.false_ne_true, htail.dropWhile hdigits]
  exact h

namespace Exponent

variable {e : Exponent} (h : e.isWritable)
include h

/-- The letter of an exponent is an `e`, in capitals or not. -/
theorem letter_eq : e.letter = 'e' ∨ e.letter = 'E' := by
  simp only [isWritable, Bool.and_eq_true, Bool.or_eq_true, beq_iff_eq] at h
  exact h.1.1.1

/-- The digits of an exponent are digits and underscores. -/
theorem isSpaced_digits : isSpaced 10 e.digits := by
  simp only [isWritable, Bool.and_eq_true] at h
  exact h.1.2

/-- An exponent has no sign or one of two. -/
theorem sign_eq : e.sign = [] ∨ ∃ sign, e.sign = [sign] ∧ (sign = '+' ∨ sign = '-') := by
  simp only [isWritable, Bool.and_eq_true, List.contains_iff_mem, List.mem_cons,
    List.not_mem_nil, or_false] at h
  rcases h.1.1.2 with h | h | h
  · exact .inl h
  · exact .inr ⟨'+', h, .inl rfl⟩
  · exact .inr ⟨'-', h, .inr rfl⟩

/-- The digits of an exponent start with a digit or with an underscore. -/
theorem exists_digits : ∃ d ds, e.digits = d :: ds ∧ (d = '_' ∨ d.isDigit) ∧ isSpaced 10 ds := by
  have hspaced := isSpaced_digits h
  simp only [isWritable, Bool.and_eq_true] at h
  cases hdigits : e.digits with
  | nil =>
    rw [hdigits] at h
    exact absurd h.2 Bool.false_ne_true
  | cons d ds =>
    rw [hdigits, isSpaced, List.all_cons, Bool.and_eq_true, Bool.or_eq_true, beq_iff_eq,
      Text.isDigitOf_ten] at hspaced
    exact ⟨d, ds, rfl, hspaced.1, hspaced.2⟩

/-- An exponent ends the digits in front of it. -/
theorem endsDigits : EndsDigits e.chars := by
  rintro _ ⟨⟩
  rcases letter_eq h with h | h <;> rw [h] <;> decide

/-- An exponent can follow digits, unless it is parted. -/
theorem isScale (hparted : e.isParted = false) {suffix : List Char}
    (hsuffix : suffix.all isWordChar) : isScale (e.chars ++ suffix) := by
  have hdigits := all_isWordChar_of_isSpaced (isSpaced_digits h)
  obtain hsign | ⟨sign, hsign, hmark⟩ := sign_eq h
  · refine isScale_of_all ?_
    rw [chars, hsign, List.nil_append, List.cons_append, List.all_cons, List.all_append, hdigits,
      hsuffix, isWordChar_of_exponent (letter_eq h)]
    rfl
  · obtain ⟨d, ds, hcons, hd, -⟩ := exists_digits h
    have hdigit : d.isDigit := by
      refine hd.resolve_left ?_
      rintro rfl
      rw [isParted, hsign, hcons] at hparted
      cases hparted
    rw [chars, hsign, List.singleton_append, List.cons_append, List.cons_append, Rust.isScale,
      if_pos ⟨letter_eq h, hmark⟩, List.all_append, hdigits, hsuffix, hcons]
    exact Bool.and_eq_true_iff.2 ⟨Unicode.isDigit_of_ascii hdigit, rfl⟩

end Exponent

namespace NumericLiteral

/-- An exponent and a suffix end the digits in front of them. -/
theorem endsDigits_scale {exponent : Option Exponent} (h : exponent.all Exponent.isWritable)
    {suffix : List Char} (hsuffix : suffix ∈ [] :: suffixes) :
    EndsDigits (exponentChars exponent ++ suffix) := by
  cases exponent with
  | none => exact (mem_suffixes hsuffix).2
  | some e => exact (Exponent.endsDigits h).append (mem_suffixes hsuffix).2

/-- A fraction in front of them does so, too. -/
theorem endsDigits_fraction (fraction : Option (List Char)) {tail : List Char}
    (h : EndsDigits tail) : EndsDigits (fractionChars fraction ++ tail) := by
  cases fraction with
  | none => exact h
  | some ds =>
    rintro _ ⟨⟩
    exact ⟨rfl, rfl⟩

/-- An exponent and a suffix can follow digits, unless an underscore stands behind the sign. -/
theorem isScale_exponent {exponent : Option Exponent} (h : exponent.all Exponent.isWritable)
    (hparted : exponent.any Exponent.isParted = false) {suffix : List Char}
    (hsuffix : suffix ∈ [] :: suffixes) : isScale (exponentChars exponent ++ suffix) := by
  cases exponent with
  | none => exact isScale_of_all (mem_suffixes hsuffix).1
  | some e => exact Exponent.isScale h hparted (mem_suffixes hsuffix).1

/-- A fraction with a digit behind its point can follow digits. -/
theorem isFraction_fraction {fraction : Option (List Char)}
    (hfraction : ∀ ds ∈ fraction, isDecimal ds) {tail : List Char} (htail : EndsDigits tail)
    (h : isScale tail) : isFraction (fractionChars fraction ++ tail) := by
  cases fraction with
  | none => exact isFraction_of_isScale h
  | some ds =>
    obtain ⟨d, ds, rfl, hd, hds⟩ := exists_cons_of_isDecimal (hfraction ds rfl)
    have hdrop := htail.dropWhile (isNumberDigit_of_isSpaced hds)
    rw [fractionChars, Option.elim_some, List.cons_append, List.cons_append, isFraction, hd,
      Bool.true_and, hdrop]
    exact h

/-- The suffix of a literal is that of a type. -/
theorem suffix_mem {literal : NumericLiteral} (h : literal.isWritable) :
    literal.suffix ∈ [] :: suffixes := by
  cases literal with
  | radix r digits suffix =>
    simp only [isWritable, Bool.and_eq_true, List.contains_iff_mem] at h
    have hmem : suffix ∈ ([] :: Numeral.integerSuffixes) ++ Numeral.floatSuffixes :=
      List.mem_append_left _ h.2
    exact hmem
  | decimal whole fraction exponent suffix =>
    simp only [isWritable, Bool.and_eq_true, Bool.or_eq_true, List.contains_iff_mem,
      List.mem_cons] at h
    change suffix ∈ [] :: suffixes
    rw [suffixes, List.mem_cons, List.mem_append]
    obtain ⟨-, (h | h) | ⟨-, h⟩⟩ := h
    · exact .inl h
    · exact .inr (.inr h)
    · exact .inr (.inl h)

/-- A literal starts with a digit. -/
theorem exists_chars_cons {literal : NumericLiteral} (h : literal.isWritable) :
    ∃ d tail, literal.chars = d :: tail ∧ d.isDigit := by
  cases literal with
  | radix r digits suffix => exact ⟨'0', _, rfl, by decide⟩
  | decimal whole fraction exponent suffix =>
    simp only [isWritable, Bool.and_eq_true] at h
    obtain ⟨d, ds, rfl, hd, -⟩ := exists_cons_of_isDecimal h.1.1.1
    exact ⟨d, _, rfl, hd⟩

/-- The fraction of a literal is made of digits and underscores. -/
theorem isSpaced_fraction {whole suffix : List Char} {fraction : Option (List Char)}
    {exponent : Option Exponent} (h : (decimal whole fraction exponent suffix).isWritable) :
    ∀ ds ∈ fraction, isSpaced 10 ds := by
  rintro ds rfl
  simp only [isWritable, Option.all_some, Bool.and_eq_true, Bool.or_eq_true,
    List.isEmpty_iff] at h
  rcases h.1.2 with hdecimal | ⟨⟨rfl, -⟩, -⟩
  · exact (Bool.and_eq_true_iff.1 hdecimal).1
  · rfl

/-- A fraction that is no point alone has a digit first. -/
theorem isDecimal_fraction {whole suffix : List Char} {fraction : Option (List Char)}
    {exponent : Option Exponent} (h : (decimal whole fraction exponent suffix).isWritable)
    (hpoint : fraction ≠ some []) : ∀ ds ∈ fraction, isDecimal ds := by
  rintro ds rfl
  simp only [isWritable, Option.all_some, Bool.and_eq_true, Bool.or_eq_true,
    List.isEmpty_iff] at h
  refine h.1.2.resolve_right fun hempty => hpoint ?_
  rw [hempty.1.1]

/-- **A literal is a numeral** if it is not split. -/
theorem isNumeral_chars {literal : NumericLiteral} (h : literal.isWritable)
    (hsplit : literal.isSplit = false) : isNumeral literal.chars := by
  have hsuffix := suffix_mem h
  cases literal with
  | radix r digits suffix =>
    have hword : suffix.all isWordChar := (mem_suffixes hsuffix).1
    simp only [isWritable, Bool.and_eq_true] at h
    have hdigits := all_isWordChar_of_isSpaced h.1.1
    have hletter : isRadix r.letter ∧ isWordChar r.letter := by cases r <;> decide
    have hzero : Unicode.isDigit '0' ∧ '0'.isDigit := by decide
    rw [chars, isNumeral, hzero.1, hzero.2, List.head?_cons, Option.any_some, hletter.1,
      List.all_cons, hletter.2, List.all_append, hdigits, hword]
    rfl
  | decimal whole fraction exponent suffix =>
    rw [isSplit, Bool.or_eq_false_iff, beq_eq_false_iff_ne] at hsplit
    have hplaces := isDecimal_fraction h hsplit.1
    simp only [isWritable, Bool.and_eq_true] at h
    obtain ⟨⟨⟨hwhole, hexponent⟩, -⟩, -⟩ := h
    obtain ⟨d, ds, rfl, hd, hds⟩ := exists_cons_of_isDecimal hwhole
    have hends := endsDigits_scale hexponent hsuffix
    exact isNumeral_digits hd hds (endsDigits_fraction fraction hends)
      (isFraction_fraction hplaces hends (isScale_exponent hexponent hsplit.2 hsuffix))

end NumericLiteral

/-! ## Tokens of literals -/

namespace CutInto

/-- A numeral in front of a text in front of which it ends. -/
theorem number {text : List Char} (h : isNumeral text) {cs : List Char} {ps : List Piece}
    (hends : ∀ rest, endsNumeral (cs ++ rest)) (hcs : CutInto cs ps) :
    CutInto (text ++ cs) (⟨.number, String.ofList text⟩ :: ps) := by
  intro rest
  have hpieces : (Lexeme.whole (.token .number text) text).pieces =
      [⟨.number, String.ofList text⟩] := rfl
  rw [List.append_assoc, lexemes_of_first? (first?_of_isNumeral h (hends rest)),
    List.flatMap_cons, hpieces, hcs rest]
  rfl

/-- A point is a token of its own. -/
theorem dot : CutInto ['.'] [⟨.dot, "."⟩] :=
  of_first? fun rest => by cases rest <;> exact ⟨_, rfl, rfl⟩

/-- A sign in front of anything that makes no arrow of it. -/
theorem sign {c d : Char} (hc : c = '+' ∨ c = '-') (hd : d ≠ '>') {cs : List Char}
    {ps : List Piece} (hcs : CutInto (d :: cs) ps) :
    CutInto (c :: d :: cs) (⟨Kind.ofMark c, String.ofList [c]⟩ :: ps) := by
  intro rest
  have hpair : Kind.ofPair? c d = none := by
    rcases hc with rfl | rfl
    · rfl
    · simp [Kind.ofPair?.eq_def, hd]
  have hfirst : Lexeme.first? (c :: d :: (cs ++ rest)) =
      some (.whole (.token (Kind.ofMark c) [c]) [c], d :: (cs ++ rest)) := by
    have hdelimiters : c ∉ Piece.delimiters := by rcases hc with rfl | rfl <;> decide
    have hpair? : Lexeme.pair? (c :: d :: (cs ++ rest)) = none := by
      rw [Lexeme.pair?, hpair]
      rfl
    rw [Piece.first?_of_notMem_delimiters hdelimiters]
    simp only [List.findSome?_cons, hpair?]
    rcases hc with rfl | rfl <;> rfl
  rw [List.cons_append, List.cons_append, lexemes_of_first? hfirst, List.flatMap_cons]
  exact congrArg (_ :: ·) (hcs rest)

/-- A word that starts with an underscore, in front of a semicolon. -/
theorem underscored {word : List Char} (h : word.all isWordChar) :
    CutInto ('_' :: (word ++ [';'])) [Piece.name (String.ofList ('_' :: word)), .mark .semicolon] := by
  have hname : Piece.isName (String.ofList ('_' :: word)) := by
    rw [Piece.isName, String.toList_ofList, Piece.isWord, h, Bool.and_true]
    rfl
  have hword := name hname (d := ';') (by decide) (mark (c := ';') (by decide))
  rwa [String.toList_ofList] at hword

end CutInto

/-- Whether a piece can stand in a value that is kept as text. -/
def Piece.isInner (p : Piece) : Bool := p.kind != .semicolon && !p.kind.opens && !p.kind.closes

namespace NumericLiteral

/-- A literal in front of punctuation is one token. -/
theorem cutInto_chars {literal : NumericLiteral} (h : literal.isWritable)
    (hsplit : literal.isSplit = false) {c : Char} (hc : c ∈ CutInto.loneMarks) :
    CutInto (literal.chars ++ [c])
      [⟨.number, String.ofList literal.chars⟩, ⟨Kind.ofMark c, String.ofList [c]⟩] := by
  refine .number (isNumeral_chars h hsplit) (fun rest => ?_) (.mark hc)
  simp only [CutInto.loneMarks, List.mem_cons, List.not_mem_nil, or_false] at hc
  rcases hc with rfl | rfl | rfl | rfl | rfl | rfl | rfl | rfl | rfl | rfl <;> rfl

/-- Whether a text in front of a semicolon is cut into a number and more tokens. -/
def IsCutBehindNumber (cs : List Char) : Prop :=
  ∃ d ds p ps, d.isDigit ∧ (∃ tail, cs = d :: tail) ∧ (∀ q ∈ p :: ps, q.isInner) ∧
    CutInto (cs ++ [';'])
      (⟨.number, String.ofList (d :: ds)⟩ :: p :: (ps ++ [Piece.mark .semicolon]))

/-- A point without digits is a token of its own. -/
theorem isCutBehindNumber_point {whole : List Char} (h : isDecimal whole) :
    IsCutBehindNumber (decimal whole (some []) none []).chars := by
  obtain ⟨d, ds, rfl, hd, hds⟩ := exists_cons_of_isDecimal h
  have hnumeral : isNumeral (d :: (ds ++ [])) :=
    isNumeral_digits hd hds (fun c hc => absurd hc (by simp)) rfl
  have hsemicolon : CutInto [';'] [Piece.mark .semicolon] := .mark (by decide)
  have hcut := CutInto.number hnumeral (fun rest => rfl) (CutInto.dot.append hsemicolon)
  refine ⟨d, ds, ⟨.dot, "."⟩, [], hd, ⟨_, rfl⟩, by decide, ?_⟩
  simpa [chars, fractionChars, exponentChars] using hcut

/-- The letter of a parted exponent ends the number as a suffix would. -/
theorem isCutBehindNumber_exponent {whole suffix : List Char} {fraction : Option (List Char)}
    {e : Exponent} (hwhole : isDecimal whole) (hfraction : ∀ ds ∈ fraction, isDecimal ds)
    (he : e.isWritable) (hparted : e.isParted) (hsuffix : suffix ∈ [] :: suffixes) :
    IsCutBehindNumber (decimal whole fraction (some e) suffix).chars := by
  obtain ⟨d, ds, rfl, hd, hds⟩ := exists_cons_of_isDecimal hwhole
  obtain hsign | ⟨sign, hsign, hmark⟩ := Exponent.sign_eq he
  · rw [Exponent.isParted, hsign] at hparted
    cases hparted
  obtain ⟨x, xs, hdigits, -, hxs⟩ := Exponent.exists_digits he
  obtain rfl : x = '_' := by simpa [Exponent.isParted, hsign, hdigits] using hparted
  have hends : EndsDigits [e.letter] := by
    rintro _ ⟨⟩
    exact Exponent.endsDigits he _ rfl
  have hscale : isScale [e.letter] :=
    isScale_of_all (by simp [isWordChar_of_exponent (Exponent.letter_eq he)])
  have hnumeral : isNumeral (d :: (ds ++ (fractionChars fraction ++ [e.letter]))) :=
    isNumeral_digits hd hds (endsDigits_fraction fraction hends)
      (isFraction_fraction hfraction hends hscale)
  have hword : (xs ++ suffix).all isWordChar := by
    rw [List.all_append, all_isWordChar_of_isSpaced hxs, (mem_suffixes hsuffix).1]
    rfl
  have hunderscore : Unicode.isDigit '_' = false := by decide
  have hcut := CutInto.number hnumeral
    (fun rest => by
      simp [endsNumeral, not_isWordChar_of_sign hmark, startsWithDigit, hunderscore])
    (CutInto.sign hmark (by decide) (CutInto.underscored hword))
  have hinner : Piece.isInner ⟨Kind.ofMark sign, String.ofList [sign]⟩ := by
    rcases hmark with rfl | rfl <;> decide
  refine ⟨d, ds ++ (fractionChars fraction ++ [e.letter]),
    ⟨Kind.ofMark sign, String.ofList [sign]⟩, [Piece.name (String.ofList ('_' :: (xs ++ suffix)))],
    hd, ⟨_, rfl⟩, List.forall_mem_cons.2 ⟨hinner, List.forall_mem_singleton.2 rfl⟩, ?_⟩
  have hchars : (decimal (d :: ds) fraction (some e) suffix).chars ++ [';'] =
      d :: (ds ++ (fractionChars fraction ++ [e.letter])) ++
        sign :: '_' :: (xs ++ suffix ++ [';']) := by
    simp [chars, exponentChars, Exponent.chars, hsign, hdigits]
  rw [hchars]
  exact hcut

/-- **A split literal is cut into several tokens**, a number first. -/
theorem isCutBehindNumber_of_isSplit {literal : NumericLiteral} (h : literal.isWritable)
    (hsplit : literal.isSplit) : IsCutBehindNumber literal.chars := by
  have hsuffix := suffix_mem h
  cases literal with
  | radix => cases hsplit
  | decimal whole fraction exponent suffix =>
    simp only [isWritable, Bool.and_eq_true] at h
    obtain ⟨⟨⟨hwhole, hexponent⟩, hfraction⟩, -⟩ := h
    cases exponent with
    | none =>
      obtain rfl : fraction = some [] := by simpa [isSplit] using hsplit
      obtain rfl : suffix = [] := by simpa [isDecimal] using hfraction
      exact isCutBehindNumber_point hwhole
    | some e =>
      have hplaces : ∀ places ∈ fraction, isDecimal places := by
        rintro places rfl
        simpa using hfraction
      have hparted : e.isParted := by
        rw [isSplit, Bool.or_eq_true, beq_iff_eq] at hsplit
        refine hsplit.resolve_left ?_
        rintro rfl
        exact absurd (hplaces [] rfl) (by decide)
      exact isCutBehindNumber_exponent hwhole hplaces hexponent hparted hsuffix

end NumericLiteral

/-! ## Signs -/

/-- The text of a literal, behind a minus sign if it is negated. -/
def signedText (negative : Bool) (literal : NumericLiteral) : String :=
  (if negative then "-" else "") ++ String.ofList literal.chars

/-- A digit makes no arrow of the minus sign in front of it. -/
theorem cutInto_signed (negative : Bool) {literal : NumericLiteral} {d : Char} (hd : d.isDigit)
    (hfirst : ∃ tail, literal.chars = d :: tail) {cs : List Char} {ps : List Piece}
    (h : CutInto (literal.chars ++ cs) ps) :
    CutInto ((signedText negative literal).toList ++ cs)
      ((if negative then [Piece.mark .minus] else []) ++ ps) := by
  obtain ⟨tail, htail⟩ := hfirst
  have hne : d ≠ '>' := by
    rintro rfl
    cases hd
  cases negative with
  | false => simpa [signedText] using h
  | true =>
    rw [htail] at h
    have hsign := CutInto.sign (c := '-') (.inr rfl) hne h
    have hchars : (signedText true literal).toList ++ cs = '-' :: d :: (tail ++ cs) := by
      simp [signedText, htail]
    rw [hchars]
    exact hsign

end Rust
end Ferrotype

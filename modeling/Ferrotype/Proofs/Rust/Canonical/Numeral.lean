/-
# Spelling numerals

A numeral is a digit and what may follow it. Behind a point there has to be a digit, and so there
has to be behind the sign of an exponent; a point or a sign without one ends the numeral before it.

`isNumeral_cons` says that numerals are what the reader of numbers takes as a whole, so they are
legible.
-/

import Ferrotype.Proofs.Rust.Canonical.Piece
import Mathlib.Data.List.TakeWhile

namespace Ferrotype
namespace Rust

open Unicode (isWordChar)
open Lexeme (run fraction exponent numberTail numberRest isNumberDigit startsWithDigit)

/-- Whether characters can follow the digits of a numeral: a suffix, or an exponent with a sign and
a digit behind it, and a suffix. An exponent without a sign reads like a suffix. -/
def isScale : List Char → Bool
  | e :: sign :: ds =>
    if (e = 'e' ∨ e = 'E') ∧ (sign = '+' ∨ sign = '-') then startsWithDigit ds && ds.all isWordChar
    else (e :: sign :: ds).all isWordChar
  | cs => cs.all isWordChar

/-- Whether characters can follow the first digits of a numeral: a point with a digit behind it and
more digits, and what can follow those. -/
def isFraction : List Char → Bool
  | '.' :: d :: ds => d.isDigit && isScale (ds.dropWhile isNumberDigit)
  | cs => isScale cs

/-- Whether characters are those of a numeral. Behind a radix, and behind a digit outside ASCII, a
numeral goes on as a word does. -/
def isNumeral : List Char → Bool
  | [] => false
  | c :: cs =>
    Unicode.isDigit c &&
      if !c.isDigit || c == '0' && cs.head?.any Lexeme.isRadix then cs.all isWordChar
      else isFraction (cs.dropWhile isNumberDigit)

/-! ## Numerals are read as a whole -/

/-- The digits of a number and underscores go on with a word. -/
theorem isWordChar_of_isNumberDigit {c : Char} (h : isNumberDigit c) : isWordChar c := by
  rw [isNumberDigit, Bool.or_eq_true] at h
  rcases h with h | h
  · exact Unicode.isWordChar_of_isDigit (Unicode.isDigit_of_ascii h)
  · rw [isWordChar, h, Bool.or_true]

/-- What follows digits goes on with a word exactly if the digits and it do. -/
theorem all_dropWhile_isNumberDigit (cs : List Char) :
    (cs.dropWhile isNumberDigit).all isWordChar = cs.all isWordChar := by
  induction cs with
  | nil => rfl
  | cons c cs ih =>
    by_cases hc : isNumberDigit c
    · rw [List.dropWhile_cons_of_pos hc, ih, List.all_cons, isWordChar_of_isNumberDigit hc,
        Bool.true_and]
    · rw [List.dropWhile_cons_of_neg hc]

/-- A run leaves nothing exactly if it takes every character. -/
theorem run_snd_eq_nil {p : Char → Bool} {cs : List Char} : (run p cs).2 = [] ↔ cs.all p := by
  rw [run, List.dropWhile_eq_nil_iff, List.all_eq_true]

/-- A sign is no digit. -/
theorem not_startsWithDigit_of_sign {sign : Char} (h : sign = '+' ∨ sign = '-') (ds : List Char) :
    startsWithDigit (sign :: ds) = false := by
  rcases h with rfl | rfl <;> rfl

/-- A sign goes on in no word. -/
theorem not_isWordChar_of_sign {sign : Char} (h : sign = '+' ∨ sign = '-') :
    isWordChar sign = false := by
  rcases h with rfl | rfl <;> decide

/-- The letter of an exponent goes on with a word. -/
theorem isWordChar_of_exponent {e : Char} (h : e = 'e' ∨ e = 'E') : isWordChar e := by
  rcases h with rfl | rfl <;> decide

/-- What is left behind an exponent is a suffix, if all of it can follow the digits. -/
theorem isScale_eq (cs : List Char) : isScale cs = (exponent cs).2.all isWordChar := by
  fun_cases exponent cs with
  | case1 => rfl
  | case2 e cs h =>
    obtain ⟨he, hstart⟩ := h
    rw [run, all_dropWhile_isNumberDigit]
    cases cs with
    | nil => cases hstart
    | cons d ds =>
      rw [isScale, if_neg, List.all_cons, isWordChar_of_exponent he, Bool.true_and]
      rintro ⟨-, hsign⟩
      rw [not_startsWithDigit_of_sign hsign] at hstart
      cases hstart
  | case3 e h => rfl
  | case4 e sign ds h _ =>
    obtain ⟨he, hsign, hstart⟩ := h
    rw [run, all_dropWhile_isNumberDigit, isScale, if_pos ⟨he, hsign⟩, hstart, Bool.true_and]
  | case5 e sign ds h _ =>
    rw [isScale]
    split
    · rename_i hexp
      have hstart : startsWithDigit ds = false := by
        rw [Bool.eq_false_iff]
        exact fun hstart => h ⟨hexp.1, hexp.2, hstart⟩
      simp [hstart, not_isWordChar_of_sign hexp.2]
    · rfl

/-- What is left behind a fraction can follow it, if all of it can follow the digits. -/
theorem isFraction_eq (cs : List Char) : isFraction cs = isScale (fraction cs).2 := by
  fun_cases fraction cs with
  | case1 c cs hc =>
    have hdigit : isNumberDigit c := by rw [isNumberDigit, hc, Bool.true_or]
    rw [isFraction, run, hc, Bool.true_and, List.dropWhile_cons_of_pos hdigit]
  | case2 c cs hc =>
    have hpoint : isWordChar '.' = false := by decide
    rw [isFraction, Bool.eq_false_iff.2 hc, Bool.false_and, isScale, if_neg (by simp)]
    simp [hpoint]
  | case3 cs hpoint =>
    rw [isFraction]
    exact hpoint

/-- Digits are followed as in a numeral exactly if the reader of numbers leaves nothing. -/
theorem isFraction_iff (cs : List Char) :
    isFraction (cs.dropWhile isNumberDigit) ↔ (numberTail cs).2 = [] := by
  rw [isFraction_eq, isScale_eq]
  exact run_snd_eq_nil.symm

/-- **Numerals are what the reader of numbers takes as a whole.** -/
theorem isNumeral_cons (c : Char) (cs : List Char) :
    isNumeral (c :: cs) ↔ Unicode.isDigit c ∧ (numberRest c cs).2 = [] := by
  rw [isNumeral, Bool.and_eq_true, numberRest]
  split
  · rw [run_snd_eq_nil]
  · rw [isFraction_iff]

/-! ## Numerals in front of other text -/

/-- Whether a numeral ends in front of a text: no word goes on with it, and there is no digit behind
the point or the sign that it starts with. -/
def endsNumeral : List Char → Bool
  | [] => true
  | d :: ds => !isWordChar d && !((d == '.' || d == '+' || d == '-') && startsWithDigit ds)

section Ends

variable {tail : List Char} (htail : endsNumeral tail)
include htail

/-- No word goes on behind a numeral that ends. -/
theorem not_isWordChar_of_endsNumeral : ∀ d ∈ tail.head?, isWordChar d = false := by
  cases tail with
  | nil => simp
  | cons d ds =>
    rintro _ ⟨⟩
    simp only [endsNumeral, Bool.and_eq_true, Bool.not_eq_true'] at htail
    exact htail.1

/-- No digit stands behind a numeral that ends. -/
theorem startsWithDigit_of_endsNumeral : startsWithDigit tail = false := by
  cases tail with
  | nil => rfl
  | cons d ds =>
    have hword := not_isWordChar_of_endsNumeral htail d rfl
    rw [startsWithDigit, Bool.eq_false_iff]
    intro hdigit
    rw [Unicode.isWordChar_of_isDigit hdigit] at hword
    cases hword

/-- A run of characters of words does not see what a numeral ends in front of. -/
theorem run_append_of_endsNumeral {p : Char → Bool} (hp : ∀ c, p c → isWordChar c)
    (cs : List Char) : run p (cs ++ tail) = ((run p cs).1, (run p cs).2 ++ tail) := by
  induction cs with
  | nil =>
    cases tail with
    | nil => rfl
    | cons d ds =>
      have hd : ¬ p d := fun hpd => by
        have hword := not_isWordChar_of_endsNumeral htail d rfl
        rw [hp d hpd] at hword
        cases hword
      simp [run, hd]
  | cons c cs ih =>
    simp only [run, Prod.mk.injEq] at ih ⊢
    cases hc : p c <;> simp [hc, ih]

/-- Whether a digit is next is decided before the end. -/
theorem startsWithDigit_append_of_endsNumeral (cs : List Char) :
    startsWithDigit (cs ++ tail) = startsWithDigit cs := by
  cases cs with
  | nil => exact startsWithDigit_of_endsNumeral htail
  | cons c cs => rfl

/-- A fraction does not see what a numeral ends in front of. The point may be the last character,
the one before it, or one with characters behind it. -/
theorem fraction_append_of_endsNumeral (cs : List Char) :
    fraction (cs ++ tail) = ((fraction cs).1, (fraction cs).2 ++ tail) := by
  have hdigit (d : Char) (hd : d.isDigit) (ds : List Char) : startsWithDigit (d :: ds) :=
    Unicode.isDigit_of_ascii hd
  match cs with
  | [] =>
    fun_cases fraction tail with
    | case1 d ds hd => simp [endsNumeral, hdigit d hd ds] at htail
    | case2 d ds hd => simp [fraction]
    | case3 => rfl
  | [c] =>
    by_cases hc : c = '.'
    · subst hc
      cases tail with
      | nil => rfl
      | cons d ds =>
        have hd : ¬ d.isDigit := fun hd => by
          have hnone := startsWithDigit_of_endsNumeral htail
          rw [hdigit d hd ds] at hnone
          cases hnone
        simp [fraction, hd]
    · simp [Lexeme.fraction.eq_def, hc]
  | c :: d :: ds =>
    by_cases hc : c = '.'
    · subst hc
      have hrun := run_append_of_endsNumeral htail (fun _ => isWordChar_of_isNumberDigit) (d :: ds)
      rw [List.cons_append] at hrun
      simp only [List.cons_append, fraction, hrun]
      split <;> rfl
    · simp [fraction, hc]

/-- An exponent does not see what a numeral ends in front of. The letter and the sign may be the
last characters. -/
theorem exponent_append_of_endsNumeral (cs : List Char) :
    exponent (cs ++ tail) = ((exponent cs).1, (exponent cs).2 ++ tail) := by
  match cs with
  | [] =>
    cases tail with
    | nil => rfl
    | cons d ds =>
      have hd : ¬ (d = 'e' ∨ d = 'E') := fun h => by
        have hword := not_isWordChar_of_endsNumeral htail d rfl
        rw [isWordChar_of_exponent h] at hword
        cases hword
      cases ds <;> simp [exponent, hd]
  | [e] =>
    have hnil : startsWithDigit [] = false := rfl
    cases tail with
    | nil => simp
    | cons sign ds =>
      have hstart := startsWithDigit_of_endsNumeral htail
      have hsign : ¬ ((sign = '+' ∨ sign = '-') ∧ startsWithDigit ds) := by
        rintro ⟨hsign, hdigit⟩
        rcases hsign with rfl | rfl <;> simp [endsNumeral, hdigit] at htail
      rw [List.singleton_append, exponent, exponent, hstart, hnil]
      simp [hsign]
  | e :: sign :: ds =>
    have hdigits : ∀ c, isNumberDigit c → isWordChar c := fun _ => isWordChar_of_isNumberDigit
    have hrun := run_append_of_endsNumeral htail hdigits (sign :: ds)
    have hstart := startsWithDigit_append_of_endsNumeral htail (sign :: ds)
    rw [List.cons_append] at hrun hstart
    rw [List.cons_append, List.cons_append, exponent, exponent, hrun, hstart,
      startsWithDigit_append_of_endsNumeral htail, run_append_of_endsNumeral htail hdigits ds]
    split
    · rfl
    · simp only
      split <;> rfl

/-- No part of a number does. -/
theorem numberTail_append_of_endsNumeral (cs : List Char) :
    numberTail (cs ++ tail) = ((numberTail cs).1, (numberTail cs).2 ++ tail) := by
  simp only [numberTail, run_append_of_endsNumeral htail (fun _ => isWordChar_of_isNumberDigit),
    run_append_of_endsNumeral htail (fun _ h => h), fraction_append_of_endsNumeral htail,
    exponent_append_of_endsNumeral htail]

/-- A number does not see what it ends in front of. -/
theorem numberRest_append_of_endsNumeral (first : Char) (cs : List Char) :
    numberRest first (cs ++ tail) =
      ((numberRest first cs).1, (numberRest first cs).2 ++ tail) := by
  have hhead : (cs ++ tail).head?.any Lexeme.isRadix = cs.head?.any Lexeme.isRadix := by
    cases cs with
    | cons c cs => rfl
    | nil =>
      cases tail with
      | nil => rfl
      | cons d ds =>
        have hword := not_isWordChar_of_endsNumeral htail d rfl
        have hnone : Lexeme.isRadix d = false := by
          rw [Bool.eq_false_iff]
          intro hradix
          simp only [Lexeme.isRadix, Bool.or_eq_true, beq_iff_eq] at hradix
          rcases hradix with (rfl | rfl) | rfl <;> exact absurd hword (by decide)
        exact hnone
  rw [numberRest, numberRest, hhead]
  split
  · exact run_append_of_endsNumeral htail (fun _ h => h) cs
  · exact numberTail_append_of_endsNumeral htail cs

end Ends

/-- A digit is no delimiter. -/
theorem ne_of_isDigit {c : Char} (h : Unicode.isDigit c) {d : Char}
    (hd : Unicode.isDigit d = false) : c ≠ d := by
  rintro rfl
  rw [hd] at h
  cases h

/-- What starts with a digit is read as a number. -/
theorem first?_of_isDigit {c : Char} (hc : Unicode.isDigit c) (cs : List Char) :
    Lexeme.first? (c :: cs) =
      some (.whole (.token .number (c :: (numberRest c cs).1)) (c :: (numberRest c cs).1),
        (numberRest c cs).2) := by
  have hne (d : Char) (hd : Unicode.isDigit d = false) : c ≠ d := ne_of_isDigit hc hd
  have hnone : Piece.delimiters.all (!Unicode.isDigit ·) := by decide
  have hdelimiters : c ∉ Piece.delimiters := fun hmem => by
    have hdigit := List.all_eq_true.1 hnone c hmem
    rw [hc] at hdigit
    cases hdigit
  have hraw : Lexeme.rawString? (c :: cs) = none := by
    simp [Lexeme.rawString?.eq_def, hne 'r' (by decide), hne 'b' (by decide)]
  have hbytes : Lexeme.bytes? (c :: cs) = none := by
    simp [Lexeme.bytes?.eq_def, hne 'b' (by decide)]
  have hrawWord : Lexeme.rawWord? (c :: cs) = none := by
    simp [Lexeme.rawWord?.eq_def, hne 'r' (by decide)]
  have hnumber : Lexeme.number? (c :: cs) =
      some (.whole (.token .number (c :: (numberRest c cs).1)) (c :: (numberRest c cs).1),
        (numberRest c cs).2) := by
    rw [Lexeme.number?, if_pos hc]
  simp only [Piece.first?_of_notMem_delimiters hdelimiters, List.findSome?_cons, hraw, hbytes,
    hrawWord, hnumber]

/-- A numeral is read as a whole in front of a text that its reader does not see. -/
theorem first?_of_numberRest_append {text : List Char} (h : isNumeral text) {tail : List Char}
    (htail : ∀ c cs, text = c :: cs →
      numberRest c (cs ++ tail) = ((numberRest c cs).1, (numberRest c cs).2 ++ tail)) :
    Lexeme.first? (text ++ tail) = some (.whole (.token .number text) text, tail) := by
  cases text with
  | nil => cases h
  | cons c cs =>
    rw [isNumeral_cons] at h
    obtain ⟨hc, hrest⟩ := h
    have hall : (numberRest c cs).1 = cs := by
      have happend := Lexeme.numberRest_append c cs
      rwa [hrest, List.append_nil] at happend
    rw [List.cons_append, first?_of_isDigit hc, htail c cs rfl, hrest, hall, List.nil_append]

/-- A numeral is read as a whole in front of what it ends in front of. -/
theorem first?_of_isNumeral {text : List Char} (h : isNumeral text) {tail : List Char}
    (htail : endsNumeral tail) :
    Lexeme.first? (text ++ tail) = some (.whole (.token .number text) text, tail) :=
  first?_of_numberRest_append h fun c cs _ => numberRest_append_of_endsNumeral htail c cs

/-- Numerals are legible. -/
theorem Piece.legible_of_isNumeral {text : String} (h : isNumeral text.toList) :
    Piece.Legible ⟨.number, text⟩ :=
  Piece.legible_of_first? rfl Kind.noConfusion fun _ =>
    ⟨_, first?_of_isNumeral h rfl, rfl⟩

end Rust
end Ferrotype

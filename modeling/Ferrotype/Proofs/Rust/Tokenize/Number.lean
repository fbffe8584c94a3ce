/-
# What is read as a number is a numeral

What the reader of numbers takes off the front of a text is a numeral (`isNumeral_numberRest`), and
no word, mark or pair is a number.
-/

import Ferrotype.Proofs.Rust.Canonical.Numeral

namespace Ferrotype
namespace Rust

open Unicode (isWordChar)
open Lexeme (run fraction exponent numberTail numberRest isNumberDigit startsWithDigit)

/-- Digits and what goes on as a word does make up one run of a word. -/
theorem run_digits_append_word (cs : List Char) :
    (run isNumberDigit cs).1 ++ (run isWordChar (run isNumberDigit cs).2).1 =
      cs.takeWhile isWordChar := by
  simp only [run]
  induction cs with
  | nil => rfl
  | cons c cs ih =>
    by_cases hc : isNumberDigit c
    · rw [List.takeWhile_cons_of_pos hc, List.dropWhile_cons_of_pos hc,
        List.takeWhile_cons_of_pos (isWordChar_of_isNumberDigit hc), List.cons_append, ih]
    · rw [List.takeWhile_cons_of_neg hc, List.dropWhile_cons_of_neg hc, List.nil_append]

/-- The rest of a word can follow digits. -/
theorem isScale_of_all {cs : List Char} (h : cs.all isWordChar) : isScale cs := by
  fun_cases isScale cs with
  | case1 e sign ds hexp =>
    rw [List.all_cons, List.all_cons, not_isWordChar_of_sign hexp.2, Bool.false_and,
      Bool.and_false] at h
    cases h
  | case2 => exact h
  | case3 => exact h

/-- So it can without the digits in front. -/
theorem isScale_dropWhile {cs : List Char} (h : cs.all isWordChar) :
    isScale (cs.dropWhile isNumberDigit) :=
  isScale_of_all (by rw [all_dropWhile_isNumberDigit, h])

/-- What can follow digits does not have to be a fraction. -/
theorem isFraction_of_isScale {cs : List Char} (h : isScale cs) : isFraction cs := by
  fun_cases isFraction cs with
  | case1 d ds =>
    have hpoint : isWordChar '.' = false := by decide
    simp [isScale, hpoint] at h
  | case2 => exact h

/-- An exponent and the word behind it can follow digits. -/
theorem isScale_exponent (cs : List Char) :
    isScale (((exponent cs).1 ++ (run isWordChar (exponent cs).2).1).dropWhile isNumberDigit) := by
  fun_cases exponent cs with
  | case1 => rfl
  | case2 e cs h =>
    rw [List.cons_append, run_digits_append_word]
    refine isScale_dropWhile ?_
    rw [List.all_cons, isWordChar_of_exponent h.1, Bool.true_and, List.all_takeWhile]
  | case3 e h => exact isScale_dropWhile List.all_takeWhile
  | case4 e sign ds h _ =>
    obtain ⟨he, hsign, hstart⟩ := h
    have hdigit : isNumberDigit e = false := by rcases he with rfl | rfl <;> rfl
    rw [List.cons_append, List.cons_append, run_digits_append_word,
      List.dropWhile_cons_of_neg (by rw [hdigit]; exact Bool.false_ne_true), isScale,
      if_pos ⟨he, hsign⟩, List.all_takeWhile, Bool.and_true]
    cases ds with
    | nil => cases hstart
    | cons d ds =>
      rw [List.takeWhile_cons_of_pos (Unicode.isWordChar_of_isDigit hstart)]
      exact hstart
  | case5 e sign ds h _ => exact isScale_dropWhile List.all_takeWhile

/-- What follows the first digits of a number that is read is what can follow them. -/
theorem isFraction_numberTail (cs : List Char) :
    isFraction ((numberTail cs).1.dropWhile isNumberDigit) := by
  have hdigits : ∀ c ∈ cs.takeWhile isNumberDigit, isNumberDigit c :=
    fun _ => List.mem_takeWhile_imp
  simp only [numberTail, List.append_assoc]
  rw [show (run isNumberDigit cs).1 = cs.takeWhile isNumberDigit from rfl,
    List.dropWhile_append_of_pos hdigits]
  fun_cases fraction (run isNumberDigit cs).2 with
  | case1 d ds hd =>
    have hdigit : isNumberDigit d := by rw [isNumberDigit, hd, Bool.true_or]
    have hdigits' : ∀ c ∈ ds.takeWhile isNumberDigit, isNumberDigit c :=
      fun _ => List.mem_takeWhile_imp
    have hscale := isScale_exponent (run isNumberDigit (d :: ds)).2
    rw [← List.dropWhile_append_of_pos hdigits'] at hscale
    rw [List.cons_append, List.dropWhile_cons_of_neg (by decide)]
    simp only [run, List.takeWhile_cons_of_pos hdigit, List.cons_append, isFraction, hd,
      Bool.true_and]
    exact hscale
  | case2 => exact isFraction_of_isScale (isScale_exponent _)
  | case3 => exact isFraction_of_isScale (isScale_exponent _)

/-- What the reader of numbers takes is a numeral. -/
theorem isNumeral_numberRest {c : Char} (hc : Unicode.isDigit c) (cs : List Char) :
    isNumeral (c :: (numberRest c cs).1) := by
  rw [isNumeral, hc, Bool.true_and, numberRest]
  split
  · rename_i h
    rw [if_pos]
    · exact List.all_takeWhile
    · -- the radix is part of the run
      cases cs with
      | nil => exact h
      | cons x xs =>
        rw [Bool.or_eq_true, Bool.and_eq_true] at h ⊢
        refine h.imp_right (And.imp_right fun hradix => ?_)
        have hx : isWordChar x := by
          simp only [List.head?_cons, Option.any_some, Lexeme.isRadix, Bool.or_eq_true,
            beq_iff_eq] at hradix
          obtain (rfl | rfl) | rfl := hradix <;> decide
        rw [run, List.takeWhile_cons_of_pos hx]
        exact hradix
  · rename_i h
    rw [if_neg]
    · exact isFraction_numberTail cs
    · -- the number goes on as the text does
      intro htaken
      refine h ?_
      rw [Bool.or_eq_true, Bool.and_eq_true] at htaken ⊢
      refine htaken.imp_right (And.imp_right fun hradix => ?_)
      have happend := Lexeme.numberTail_append cs
      cases htail : (numberTail cs).1 with
      | nil =>
        rw [htail] at hradix
        cases hradix
      | cons x xs =>
        rw [htail] at hradix happend
        rw [← happend]
        exact hradix

/-- No word is a number. -/
theorem ofWord_ne_number (word : List Char) : Kind.ofWord word ≠ .number :=
  Piece.lookup_getD_ne Kind.noConfusion (by decide) word

/-- No mark is a number. -/
theorem ofMark_ne_number (c : Char) : Kind.ofMark c ≠ .number :=
  Piece.lookup_getD_ne Kind.noConfusion (by decide) c

/-- No pair is a number. -/
theorem ofPair?_ne_number (c d : Char) : Kind.ofPair? c d ≠ some .number := by
  fun_cases Kind.ofPair? c d <;> simp

end Rust
end Ferrotype

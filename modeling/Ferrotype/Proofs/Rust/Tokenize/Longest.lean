/-
# Numbers are read to their end

More text behind a number never makes its reader take less of it: a part of a number is cut where it
was, or it takes all that was there and goes on (`Greedy`). This holds of runs, of fractions and of
exponents, and of one such part behind another (`Greedy.andThen`). So what is read from a source is
the longest numeral that the source starts with (`eq_nil_of_isNumeral_append`).
-/

import Ferrotype.Proofs.Rust.Tokenize.Parted

namespace Ferrotype
namespace Rust
namespace Lexeme

/-- Whether a text that goes on is cut where it was, unless all of it is taken. -/
def Greedy (cut : List Char → List Char × List Char) : Prop :=
  ∀ xs ys, xs <+: (cut (xs ++ ys)).1 ∨ cut (xs ++ ys) = ((cut xs).1, (cut xs).2 ++ ys)

/-- A run takes all of a text, or it ends at the same character as before. -/
theorem greedy_run (p : Char → Bool) : Greedy (run p) := by
  intro xs ys
  induction xs with
  | nil => exact .inl List.nil_prefix
  | cons x xs ih =>
    by_cases hx : p x
    · rcases ih with ih | ih
      · left
        rw [run] at ih
        rw [run, List.cons_append, List.takeWhile_cons_of_pos hx]
        exact (List.prefix_cons_inj x).2 ih
      · right
        simp only [run, Prod.mk.injEq] at ih
        simp [run, hx, ih]
    · right
      simp [run, hx]

/-- Two greedy cuts one after the other are greedy, if the first one loses nothing. -/
theorem Greedy.andThen {first second : List Char → List Char × List Char} (hfirst : Greedy first)
    (happend : ∀ cs, (first cs).1 ++ (first cs).2 = cs) (hsecond : Greedy second) :
    Greedy fun cs => ((first cs).1 ++ (second (first cs).2).1, (second (first cs).2).2) := by
  intro xs ys
  obtain hall | hcut := hfirst xs ys
  · exact .inl (hall.trans (List.prefix_append _ _))
  · simp only [hcut]
    obtain hall | hcut' := hsecond (first xs).2 ys
    · have hprefix := (List.prefix_append_right_inj (first xs).1).2 hall
      rw [happend] at hprefix
      exact .inl hprefix
    · exact .inr (by rw [hcut'])

/-- Behind a point alone there is room for a digit; a point with something behind it is the start of
a fraction or it is not. -/
theorem greedy_fraction : Greedy fraction := by
  intro xs ys
  match xs with
  | [] => exact .inl List.nil_prefix
  | [c] =>
    by_cases hc : c = '.'
    · subst hc
      cases ys with
      | nil => exact .inr rfl
      | cons d ys =>
        rw [List.singleton_append, fraction]
        split
        · exact .inl ((List.prefix_cons_inj '.').2 List.nil_prefix)
        · exact .inr rfl
    · right
      simp [fraction.eq_def, hc]
  | c :: d :: xs =>
    by_cases hc : c = '.'
    · subst hc
      by_cases hd : d.isDigit
      · obtain hall | hcut := greedy_run isNumberDigit (d :: xs) ys
        · left
          simp only [List.cons_append, fraction, if_pos hd] at hall ⊢
          exact (List.prefix_cons_inj '.').2 hall
        · right
          rw [List.cons_append] at hcut
          simp only [List.cons_append, fraction, if_pos hd, hcut]
      · right
        simp [fraction, hd]
    · right
      simp [fraction, hc]

/-- What goes on with an exponent that has a sign starts behind the sign. -/
theorem greedy_scale : Greedy scale := by
  intro xs ys
  by_cases hopens : opensSigned xs
  · -- the exponent is there already
    obtain ⟨e, sign, ds, rfl⟩ : ∃ e sign ds, xs = e :: sign :: ds := by
      fun_cases opensSigned xs with
      | case1 e sign ds => exact ⟨e, sign, ds, rfl⟩
      | case2 xs hother =>
        rw [opensSigned] at hopens
        · cases hopens
        · exact hother
    have hmore : opensSigned (e :: sign :: ds ++ ys) := by
      cases ds with
      | nil => simp [opensSigned, startsWithDigit] at hopens
      | cons d ds => exact hopens
    obtain hall | hcut := greedy_run Unicode.isWordChar ds ys
    · left
      rw [scale, if_pos hmore]
      exact (List.prefix_cons_inj e).2 ((List.prefix_cons_inj sign).2 hall)
    · right
      rw [scale, scale, if_pos hmore, if_pos hopens]
      simp only [List.cons_append, List.take_succ_cons, List.take_zero, List.drop_succ_cons,
        List.drop_zero, hcut, List.nil_append]
  · by_cases hmore : opensSigned (xs ++ ys)
    · -- it becomes one by what follows, so no more than its letter and its sign are there
      left
      rw [scale, if_pos hmore]
      rcases xs with _ | ⟨e, _ | ⟨sign, _ | ⟨d, xs⟩⟩⟩
      · exact List.nil_prefix
      · cases ys with
        | nil => cases hmore
        | cons sign ys => exact (List.prefix_cons_inj e).2 List.nil_prefix
      · exact List.prefix_append _ _
      · exact absurd hmore hopens
    · rw [scale, scale, if_neg hmore, if_neg hopens]
      exact greedy_run _ xs ys

/-- Digits, a fraction, an exponent and a suffix are greedy together. -/
theorem greedy_numberTail : Greedy numberTail := by
  rw [numberTail_eq]
  refine ((greedy_run isNumberDigit).andThen (run_append _) greedy_fraction).andThen (fun cs => ?_)
    greedy_scale
  rw [List.append_assoc, fraction_append, run_append]

/-- A number is greedy: what decides for a radix stands behind its first digit. -/
theorem greedy_numberRest (first : Char) : Greedy (numberRest first) := by
  intro xs ys
  cases xs with
  | nil => exact .inl List.nil_prefix
  | cons x xs =>
    by_cases hradix : (!first.isDigit || first == '0' && (some x).any isRadix) = true
    · have hrun (zs : List Char) :
          numberRest first (x :: zs) = run Unicode.isWordChar (x :: zs) := if_pos hradix
      rw [List.cons_append, hrun, hrun]
      exact greedy_run _ (x :: xs) ys
    · have htail (zs : List Char) : numberRest first (x :: zs) = numberTail (x :: zs) :=
        if_neg hradix
      rw [List.cons_append, htail, htail]
      exact greedy_numberTail (x :: xs) ys

end Lexeme

/-- **No longer numeral stands at the start of a source than the one that is read.** -/
theorem eq_nil_of_isNumeral_append {c : Char} {cs more : List Char}
    (hmore : more <+: (Lexeme.numberRest c cs).2)
    (h : isNumeral (c :: (Lexeme.numberRest c cs).1 ++ more)) : more = [] := by
  obtain ⟨tail, htail⟩ := hmore
  have hcs : (Lexeme.numberRest c cs).1 ++ more ++ tail = cs := by
    rw [List.append_assoc, htail, Lexeme.numberRest_append]
  rw [List.cons_append, isNumeral_cons] at h
  obtain hall | hcut := Lexeme.greedy_numberRest c ((Lexeme.numberRest c cs).1 ++ more) tail
  · rw [hcs] at hall
    have hlength := hall.length_le
    rw [List.length_append] at hlength
    exact List.length_eq_zero_iff.1 (by omega)
  · -- all of the longer numeral is taken in front of nothing, and so it is in front of the rest
    have hwhole := Lexeme.numberRest_append c ((Lexeme.numberRest c cs).1 ++ more)
    rw [h.2, List.append_nil] at hwhole
    rw [hcs, hwhole] at hcut
    have htaken := congrArg Prod.fst hcut
    simpa using htaken

end Rust
end Ferrotype

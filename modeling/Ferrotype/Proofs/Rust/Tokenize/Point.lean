/-
# Numbers in front of a point

A point goes on with a number only if the number holds nothing but digits so far and a digit stands
behind the point. Otherwise the number ends in front of it (`first?_of_isNumeral_point`), as it does
in front of a sign that no word goes on with. A number ends as a word does.
-/

import Ferrotype.Proofs.Rust.Tokenize.Parted

namespace Ferrotype
namespace Rust

open Unicode (isWordChar)
open Lexeme (run fraction numberTail numberRest isNumberDigit scale opensSigned startsWithDigit)

/-! ## Parts of a number in front of a point -/

/-- A run does not see what is behind a character that ends it. -/
theorem run_append_cons {p : Char → Bool} {d : Char} (hd : p d = false) (cs ds : List Char) :
    run p (cs ++ d :: ds) = ((run p cs).1, (run p cs).2 ++ d :: ds) := by
  induction cs with
  | nil => simp [run, hd]
  | cons c cs ih =>
    simp only [run, Prod.mk.injEq] at ih ⊢
    cases hc : p c <;> simp [hc, ih]

/-- A fraction ends in front of a point, unless the point opens it. -/
theorem fraction_append_point {cs ds : List Char}
    (h : cs = [] → ∀ d ∈ ds.head?, d.isDigit = false) :
    fraction (cs ++ '.' :: ds) = ((fraction cs).1, (fraction cs).2 ++ '.' :: ds) := by
  match cs with
  | [] =>
    cases ds with
    | nil => rfl
    | cons d ds => simp [fraction, h rfl d rfl]
  | [c] =>
    have hpoint : '.'.isDigit = false := rfl
    by_cases hc : c = '.' <;> simp [Lexeme.fraction.eq_def, hc, hpoint]
  | c :: d :: cs =>
    by_cases hc : c = '.'
    · subst hc
      have hpoint : isNumberDigit '.' = false := rfl
      have hrun := run_append_cons hpoint (d :: cs) ds
      rw [List.cons_append] at hrun
      simp only [List.cons_append, fraction, hrun]
      split <;> rfl
    · simp [Lexeme.fraction.eq_def, hc]

/-- No point is part of an exponent. -/
theorem opensSigned_append_point (cs ds : List Char) :
    opensSigned (cs ++ '.' :: ds) = opensSigned cs := by
  have hpoint : Unicode.isDigit '.' = false := by decide
  rcases cs with _ | ⟨e, _ | ⟨sign, _ | ⟨d, cs⟩⟩⟩
  · cases ds <;> simp [opensSigned]
  · simp [opensSigned]
  · simp [opensSigned, startsWithDigit, hpoint]
  · rfl

/-- An exponent and a suffix end in front of a point. -/
theorem scale_append_point (cs ds : List Char) :
    scale (cs ++ '.' :: ds) = ((scale cs).1, (scale cs).2 ++ '.' :: ds) := by
  have hpoint : isWordChar '.' = false := by decide
  rw [scale, scale, opensSigned_append_point]
  split
  · rename_i hopens
    rcases cs with _ | ⟨e, _ | ⟨sign, cs⟩⟩
    · cases hopens
    · cases hopens
    · simp only [List.cons_append, List.take_succ_cons, List.take_zero, List.drop_succ_cons,
        List.drop_zero, run_append_cons hpoint]
  · exact run_append_cons hpoint cs ds

/-- Digits and all that follows them end in front of a point, unless there are only digits and one
behind the point. -/
theorem numberTail_append_point {cs ds : List Char}
    (h : cs.all isNumberDigit → ∀ d ∈ ds.head?, d.isDigit = false) :
    numberTail (cs ++ '.' :: ds) = ((numberTail cs).1, (numberTail cs).2 ++ '.' :: ds) := by
  have hpoint : isNumberDigit '.' = false := rfl
  rw [← run_snd_eq_nil] at h
  simp only [Lexeme.numberTail_eq, run_append_cons hpoint, fraction_append_point h,
    scale_append_point]

/-- The digit that starts a number is one of ASCII, if it is one that can stand inside. -/
theorem isDigit_of_isNumberDigit {c : Char} (hdigit : Unicode.isDigit c) (h : isNumberDigit c) :
    c.isDigit := by
  rw [isNumberDigit, Bool.or_eq_true, beq_iff_eq] at h
  refine h.resolve_right ?_
  rintro rfl
  exact absurd hdigit (by decide)

/-- The same of a number behind its first digit. -/
theorem numberRest_append_point {c : Char} {cs ds : List Char}
    (h : (c :: cs).all isNumberDigit → ∀ d ∈ ds.head?, d.isDigit = false) :
    numberRest c (cs ++ '.' :: ds) = ((numberRest c cs).1, (numberRest c cs).2 ++ '.' :: ds) := by
  have hword : isWordChar '.' = false := by decide
  have hhead : (cs ++ '.' :: ds).head?.any Lexeme.isRadix = cs.head?.any Lexeme.isRadix := by
    cases cs <;> rfl
  rw [numberRest, numberRest, hhead]
  split
  · exact run_append_cons hword cs ds
  · rename_i hplain
    refine numberTail_append_point fun hcs => h ?_
    have hc : c.isDigit := by
      cases hdigit : c.isDigit with
      | true => rfl
      | false => simp [hdigit] at hplain
    rw [List.all_cons, isNumberDigit, hc, hcs]
    rfl

/-- A number is read in front of a point, unless it holds only digits and there is one behind the
point, too. -/
theorem first?_of_isNumeral_point {text ds : List Char} (h : isNumeral text)
    (hdigits : text.all isNumberDigit → ∀ d ∈ ds.head?, d.isDigit = false) :
    Lexeme.first? (text ++ '.' :: ds) =
      some (.whole (.token .number text) text, '.' :: ds) :=
  first?_of_numberRest_append h fun _ _ htext => numberRest_append_point (htext ▸ hdigits)

/-- Otherwise the number goes on behind the point. -/
theorem exists_first?_of_digits_point {text : List Char} (h : isNumeral text)
    (hdigits : text.all isNumberDigit) {d : Char} (hd : d.isDigit) (ds : List Char) :
    ∃ lexeme rest more, Lexeme.first? (text ++ '.' :: d :: ds) = some (lexeme, rest) ∧
      lexeme.pieces = [⟨.number, String.ofList (text ++ '.' :: more)⟩] := by
  cases text with
  | nil => cases h
  | cons c cs =>
    rw [isNumeral_cons] at h
    rw [List.all_cons, Bool.and_eq_true] at hdigits
    have hc : c.isDigit := isDigit_of_isNumberDigit h.1 hdigits.1
    have hradix : (cs ++ '.' :: d :: ds).head?.any Lexeme.isRadix = false := by
      cases cs with
      | nil => rfl
      | cons x cs =>
        rw [List.cons_append, List.head?_cons, Option.any_some, Bool.eq_false_iff]
        intro hx
        simp only [Lexeme.isRadix, Bool.or_eq_true, beq_iff_eq] at hx
        rcases hx with (rfl | rfl) | rfl <;> cases hdigits.2
    have hrun : run isNumberDigit (cs ++ '.' :: d :: ds) = (cs, '.' :: d :: ds) :=
      Lexeme.run_append_of_head? (List.all_eq_true.1 hdigits.2) (by rintro x ⟨⟩; rfl)
    have hrest : ∃ more, (numberRest c (cs ++ '.' :: d :: ds)).1 = cs ++ '.' :: more := by
      rw [numberRest, hc, hradix, Bool.and_false]
      simp only [Bool.not_true, Bool.or_false, Bool.false_eq_true, if_false, numberTail, hrun,
        fraction, hd, if_true, List.append_assoc, List.cons_append]
      exact ⟨_, rfl⟩
    obtain ⟨more, hmore⟩ := hrest
    have hfirst := first?_of_isDigit h.1 (cs ++ '.' :: d :: ds)
    rw [hmore] at hfirst
    exact ⟨_, _, more, hfirst, rfl⟩

/-! ## The end of a number -/

/-- What can follow digits ends as a word does. -/
theorem isWordChar_of_isScale {cs : List Char} (h : isScale cs) :
    ∀ c ∈ cs.getLast?, isWordChar c := by
  have hall {cs : List Char} (h : cs.all isWordChar) : ∀ c ∈ cs.getLast?, isWordChar c :=
    fun c hc => List.all_eq_true.1 h c (List.mem_of_mem_getLast? hc)
  fun_cases isScale cs with
  | case1 e sign ds hexp =>
    rw [isScale, if_pos hexp, Bool.and_eq_true] at h
    cases ds with
    | nil => cases h.1
    | cons d ds =>
      rw [List.getLast?_cons_cons, List.getLast?_cons_cons]
      exact hall h.2
  | case2 e sign ds hexp =>
    rw [isScale, if_neg hexp] at h
    exact hall h
  | case3 cs hcs =>
    rw [isScale] at h
    · exact hall h
    · exact hcs

/-- The last character of two texts is that of the second one, or of the first one if the second one
is empty. -/
theorem forall_getLast?_append {α : Type} {P : α → Prop} {xs ys : List α}
    (hxs : ∀ x ∈ xs.getLast?, P x) (hys : ∀ y ∈ ys.getLast?, P y) :
    ∀ z ∈ (xs ++ ys).getLast?, P z := by
  intro z hz
  rw [List.getLast?_append, Option.mem_def, Option.or_eq_some_iff] at hz
  exact hz.elim (hys z) fun h => hxs z h.2

/-- Digits and what follows them end like a word if what follows does. -/
theorem isWordChar_of_dropWhile {c : Char} (hc : isWordChar c) {cs : List Char}
    (h : ∀ d ∈ (cs.dropWhile isNumberDigit).getLast?, isWordChar d) :
    ∀ d ∈ (c :: cs).getLast?, isWordChar d := by
  have hdigits : ∀ d ∈ (c :: cs.takeWhile isNumberDigit).getLast?, isWordChar d := fun d hd => by
    rcases List.mem_cons.1 (List.mem_of_mem_getLast? hd) with rfl | hmem
    · exact hc
    · exact isWordChar_of_isNumberDigit (List.mem_takeWhile_imp hmem)
  have hall := forall_getLast?_append hdigits h
  rwa [List.cons_append, List.takeWhile_append_dropWhile] at hall

/-- A fraction and what follows it end as a word does. -/
theorem isWordChar_of_isFraction {cs : List Char} (h : isFraction cs) :
    ∀ c ∈ cs.getLast?, isWordChar c := by
  fun_cases isFraction cs with
  | case1 d ds =>
    rw [isFraction, Bool.and_eq_true] at h
    rw [List.getLast?_cons_cons]
    exact isWordChar_of_dropWhile (Unicode.isWordChar_of_isDigit (Unicode.isDigit_of_ascii h.1))
      (isWordChar_of_isScale h.2)
  | case2 cs hcs =>
    rw [isFraction] at h
    · exact isWordChar_of_isScale h
    · exact hcs

/-- A number ends as a word does. -/
theorem isWordChar_of_isNumeral {text : List Char} (h : isNumeral text) :
    ∀ c ∈ text.getLast?, isWordChar c := by
  cases text with
  | nil => cases h
  | cons c cs =>
    rw [isNumeral, Bool.and_eq_true] at h
    have hc := Unicode.isWordChar_of_isDigit h.1
    obtain ⟨-, htail⟩ := h
    split at htail
    · refine isWordChar_of_dropWhile hc fun d hd => ?_
      rw [← all_dropWhile_isNumberDigit] at htail
      exact List.all_eq_true.1 htail d (List.mem_of_mem_getLast? hd)
    · exact isWordChar_of_dropWhile hc (isWordChar_of_isFraction htail)

end Rust
end Ferrotype

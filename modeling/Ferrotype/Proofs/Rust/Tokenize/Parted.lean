/-
# Texts that go on with a blank

`Parted cs ds` says that two texts agree up to a place where a new lexeme starts in `cs`, while a
blank and a slash stand in `ds`. What is cut off before that place is cut off again: a run ends at a
blank, and so does every part of a number (`stable_numberRest`). What is enclosed ends where it is
closed, whatever follows (`Closed`).
-/

import Ferrotype.Proofs.Rust.Tokenize.Number
import Mathlib.Data.List.TakeWhile

namespace Ferrotype
namespace Rust
namespace Lexeme

/-! ## Parted texts -/

/-- Whether two texts agree up to a place where one goes on without layout and the other one with a
blank and a slash. -/
inductive Parted : List Char → List Char → Prop
  | here {c : Char} (hc : isLayout c = false) (cs ds : List Char) :
    Parted (c :: cs) (' ' :: '/' :: ds)
  | later (c : Char) {cs ds : List Char} (h : Parted cs ds) : Parted (c :: cs) (c :: ds)

variable {cs ds : List Char}

/-- The text without a remark goes on. -/
theorem Parted.ne_nil (h : Parted cs ds) : cs ≠ [] := by
  cases h <;> exact List.cons_ne_nil _ _

/-- Texts are parted behind what they have in common. -/
theorem Parted.append (h : Parted cs ds) (xs : List Char) : Parted (xs ++ cs) (xs ++ ds) := by
  induction xs with
  | nil => exact h
  | cons x xs ih => exact .later x ih

/-- The other text starts with a blank or as the first one does. -/
theorem Parted.head? (h : Parted cs ds) : ds.head? = some ' ' ∨ ds.head? = cs.head? := by
  cases h with
  | here => exact .inl rfl
  | later => exact .inr rfl

/-! ## Runs and numbers -/

/-- A run in front of a character that ends it. -/
theorem run_append_of_head? {p : Char → Bool} {xs ys : List Char} (hxs : ∀ x ∈ xs, p x)
    (hys : ∀ y ∈ ys.head?, p y = false) : run p (xs ++ ys) = (xs, ys) := by
  obtain ⟨htake, hdrop⟩ := Text.takeWhile_append_of_head? hxs hys
  rw [run, htake, hdrop]

/-- What is cut off a text does not change when the rest is parted. -/
structure Stable (cut : List Char → List Char × List Char) : Prop where
  append : ∀ cs, (cut cs).1 ++ (cut cs).2 = cs
  again : ∀ {cs ds}, Parted (cut cs).2 ds → cut ((cut cs).1 ++ ds) = ((cut cs).1, ds)

/-- A run ends at a character without its property. -/
theorem not_of_mem_head?_dropWhile {p : Char → Bool} {cs : List Char} {c : Char}
    (h : c ∈ (cs.dropWhile p).head?) : p c = false := by
  have hhead := List.head?_dropWhile_not p cs
  rw [h] at hhead
  exact hhead

/-- A run that ends at a blank is stable. -/
theorem stable_run {p : Char → Bool} (hblank : p ' ' = false) : Stable (run p) where
  append := run_append p
  again := by
    intro cs ds h
    refine run_append_of_head? (fun _ => List.mem_takeWhile_imp) fun d hd => ?_
    rcases h.head? with hhead | hhead
    · rw [hhead] at hd
      cases hd
      exact hblank
    · rw [hhead] at hd
      exact not_of_mem_head?_dropWhile hd

/-- A text that is cut twice is cut at a stable place if each cut is stable. -/
theorem Stable.andThen {first second : List Char → List Char × List Char} (hfirst : Stable first)
    (hsecond : Stable second) :
    Stable fun cs => ((first cs).1 ++ (second (first cs).2).1, (second (first cs).2).2) where
  append cs := by
    rw [List.append_assoc, hsecond.append, hfirst.append]
  again := by
    intro cs ds h
    have hrest := h.append (second (first cs).2).1
    rw [hsecond.append] at hrest
    simp only
    rw [List.append_assoc, hfirst.again hrest, hsecond.again h]

theorem isNumberDigit_blank : isNumberDigit ' ' = false := rfl

theorem isWordChar_blank : Unicode.isWordChar ' ' = false := by decide

theorem isDigit_blank : Unicode.isDigit ' ' = false := by decide

/-- Whether a text starts with a point and a digit. -/
def opensFraction : List Char → Bool
  | c :: d :: _ => c == '.' && d.isDigit
  | _ => false

/-- A fraction that is opened in front of a remark is opened without it, too. -/
theorem Parted.opensFraction (h : Parted cs ds) (hds : opensFraction ds) : opensFraction cs := by
  cases h with
  | here => cases hds
  | later c h =>
    cases h with
    | here => simp [Lexeme.opensFraction] at hds
    | later => exact hds

/-- Without a point and a digit there is no fraction. -/
theorem fraction_of_opensFraction_eq_false (h : opensFraction cs = false) :
    fraction cs = ([], cs) := by
  fun_cases fraction cs with
  | case1 c cs hc =>
    simp [opensFraction, hc] at h
  | case2 => rfl
  | case3 => rfl

/-- A fraction is stable. -/
theorem stable_fraction : Stable fraction where
  append := fraction_append
  again := by
    intro cs ds h
    cases hopens : opensFraction cs with
    | false =>
      rw [fraction_of_opensFraction_eq_false hopens] at h ⊢
      have hds : opensFraction ds = false :=
        Bool.eq_false_iff.2 fun hds => by simp [h.opensFraction hds] at hopens
      exact fraction_of_opensFraction_eq_false hds
    | true =>
      unfold opensFraction at hopens
      split at hopens
      · rename_i c d cs
        rw [Bool.and_eq_true, beq_iff_eq] at hopens
        obtain ⟨rfl, hd⟩ := hopens
        have hdigit : isNumberDigit d := by rw [isNumberDigit, hd, Bool.true_or]
        rw [fraction, if_pos hd] at h ⊢
        have hrun := (stable_run isNumberDigit_blank).again h
        have hdigits : (run isNumberDigit (d :: cs)).1 ++ ds =
            d :: (cs.takeWhile isNumberDigit ++ ds) := by
          rw [run, List.takeWhile_cons_of_pos hdigit, List.cons_append]
        rw [List.cons_append, hdigits, fraction, if_pos hd, ← hdigits, hrun]
      · cases hopens

/-- Whether a text starts with the exponent of a number that has a sign. -/
def opensSigned : List Char → Bool
  | e :: sign :: cs => (e = 'e' ∨ e = 'E') ∧ (sign = '+' ∨ sign = '-') ∧ startsWithDigit cs
  | _ => false

/-- An exponent with a sign that is opened in front of a remark is opened without it, too. -/
theorem Parted.opensSigned (h : Parted cs ds) (hds : opensSigned ds) : opensSigned cs := by
  cases h with
  | here => simp [Lexeme.opensSigned] at hds
  | later _ h =>
    cases h with
    | here => simp [Lexeme.opensSigned] at hds
    | later _ h =>
      cases h with
      | here => simp [Lexeme.opensSigned, startsWithDigit, isDigit_blank] at hds
      | later => exact hds

/-- The exponent of a number and its suffix. Behind a sign, or without one, they are one run of a
word. -/
def scale (cs : List Char) : List Char × List Char :=
  if opensSigned cs then
    (cs.take 2 ++ (run Unicode.isWordChar (cs.drop 2)).1, (run Unicode.isWordChar (cs.drop 2)).2)
  else run Unicode.isWordChar cs

/-- Nothing of a text is lost behind an exponent. -/
theorem scale_append (cs : List Char) : (scale cs).1 ++ (scale cs).2 = cs := by
  unfold scale
  split
  · simp only [List.append_assoc]
    rw [run_append, List.take_append_drop]
  · exact run_append _ _

/-- An exponent and a suffix are stable. With a sign the digit behind it is part of them. -/
theorem stable_scale : Stable scale where
  append := scale_append
  again := by
    intro cs ds h
    have hwhole := h.append (scale cs).1
    rw [scale_append] at hwhole
    cases hopens : opensSigned cs with
    | false =>
      have hagain : opensSigned ((scale cs).1 ++ ds) = false :=
        Bool.eq_false_iff.2 fun hds => by simp [hwhole.opensSigned hds] at hopens
      have hscale : scale cs = run Unicode.isWordChar cs := by
        rw [scale, hopens, if_neg Bool.false_ne_true]
      rw [scale, hagain, if_neg Bool.false_ne_true]
      rw [hscale] at h ⊢
      exact (stable_run isWordChar_blank).again h
    | true =>
      have hscale : scale cs = (cs.take 2 ++ (run Unicode.isWordChar (cs.drop 2)).1,
          (run Unicode.isWordChar (cs.drop 2)).2) := by
        rw [scale, hopens, if_pos rfl]
      rw [hscale] at h ⊢
      have hrun := (stable_run isWordChar_blank).again h
      unfold opensSigned at hopens
      split at hopens
      · rename_i e sign cs
        rw [decide_eq_true_eq] at hopens
        cases cs with
        | nil => cases hopens.2.2
        | cons d cs =>
          have hd : Unicode.isWordChar d := Unicode.isWordChar_of_isDigit hopens.2.2
          simp only [List.take_succ_cons, List.take_zero, List.drop_succ_cons, List.drop_zero,
            List.cons_append, List.nil_append] at hrun ⊢
          have hdigits : (run Unicode.isWordChar (d :: cs)).1 ++ ds =
              d :: (cs.takeWhile Unicode.isWordChar ++ ds) := by
            rw [run, List.takeWhile_cons_of_pos hd, List.cons_append]
          have hagain : opensSigned
              (e :: sign :: ((run Unicode.isWordChar (d :: cs)).1 ++ ds)) := by
            rw [hdigits]
            exact decide_eq_true hopens
          rw [scale, if_pos hagain]
          simp only [List.take_succ_cons, List.take_zero, List.drop_succ_cons, List.drop_zero,
            List.cons_append, List.nil_append, hrun]
      · cases hopens

/-- Digits and the word behind them end where one word does. -/
theorem run_digits_run_word (cs : List Char) :
    (run Unicode.isWordChar (run isNumberDigit cs).2).2 = (run Unicode.isWordChar cs).2 := by
  have hsplit := run_append isNumberDigit cs
  rw [← run_append Unicode.isWordChar (run isNumberDigit cs).2, ← List.append_assoc,
    run_digits_append_word] at hsplit
  exact List.append_cancel_left (hsplit.trans (run_append Unicode.isWordChar cs).symm)

/-- A word goes on with a character of words. -/
theorem run_word_cons {c : Char} (hc : Unicode.isWordChar c) (cs : List Char) :
    run Unicode.isWordChar (c :: cs) =
      (c :: (run Unicode.isWordChar cs).1, (run Unicode.isWordChar cs).2) := by
  rw [run, List.takeWhile_cons_of_pos hc, List.dropWhile_cons_of_pos hc]
  rfl

/-- An exponent and the suffix behind it, as they are cut off one after the other. -/
theorem exponent_andThen_run (cs : List Char) :
    ((exponent cs).1 ++ (run Unicode.isWordChar (exponent cs).2).1,
      (run Unicode.isWordChar (exponent cs).2).2) = scale cs := by
  fun_cases exponent cs with
  | case1 => rfl
  | case2 e cs h =>
    have hsigned : opensSigned (e :: cs) = false := by
      cases cs with
      | nil => rfl
      | cons sign ds =>
        have hplus : Unicode.isDigit '+' = false := by decide
        have hminus : Unicode.isDigit '-' = false := by decide
        have hsign : Unicode.isDigit sign := h.2
        rw [opensSigned, decide_eq_false]
        rintro ⟨-, rfl | rfl, -⟩
        · simp [hplus] at hsign
        · simp [hminus] at hsign
    rw [scale, hsigned, if_neg Bool.false_ne_true, run_word_cons (isWordChar_of_exponent h.1),
      List.cons_append, run_digits_append_word, run_digits_run_word]
    rfl
  | case3 e h =>
    rw [scale, if_neg (by simp [opensSigned])]
    rfl
  | case4 e sign ds h h' =>
    rw [scale, opensSigned, if_pos (decide_eq_true h), List.cons_append, List.cons_append,
      run_digits_append_word, run_digits_run_word]
    rfl
  | case5 e sign ds h h' =>
    rw [scale, opensSigned, decide_eq_false h, if_neg Bool.false_ne_true]
    rfl

/-- The digits, the fraction and all that follows, as they are cut off one after the other. -/
theorem numberTail_eq : numberTail = fun cs =>
    ((run isNumberDigit cs).1 ++ (fraction (run isNumberDigit cs).2).1 ++
      (scale (fraction (run isNumberDigit cs).2).2).1,
      (scale (fraction (run isNumberDigit cs).2).2).2) := by
  funext cs
  rw [← exponent_andThen_run]
  simp only [numberTail, List.append_assoc]

/-- Digits and all that follows them are stable. -/
theorem stable_numberTail : Stable numberTail := by
  rw [numberTail_eq]
  exact ((stable_run isNumberDigit_blank).andThen stable_fraction).andThen stable_scale

/-- A radix in front of a remark is one without it, too. -/
theorem Parted.radix (h : Parted cs ds) (hds : ds.head?.any isRadix) : cs.head?.any isRadix := by
  rcases h.head? with hhead | hhead
  · rw [hhead] at hds
    cases hds
  · rwa [hhead] at hds

/-- The letter of a radix goes on with a word. -/
theorem isWordChar_of_isRadix {c : Char} (h : isRadix c) : Unicode.isWordChar c := by
  simp only [isRadix, Bool.or_eq_true, beq_iff_eq] at h
  obtain (rfl | rfl) | rfl := h <;> decide

/-- Numbers are stable. -/
theorem stable_numberRest (first : Char) : Stable (numberRest first) where
  append := numberRest_append first
  again := by
    intro cs ds h
    have hwhole := h.append (numberRest first cs).1
    rw [numberRest_append] at hwhole
    by_cases hradix : (!first.isDigit || first == '0' && cs.head?.any isRadix) = true
    · have heq : numberRest first cs = run Unicode.isWordChar cs := by
        rw [numberRest, if_pos hradix]
      rw [heq] at h hwhole ⊢
      rw [numberRest, if_pos]
      · exact (stable_run isWordChar_blank).again h
      · rw [Bool.or_eq_true, Bool.and_eq_true] at hradix ⊢
        refine hradix.imp_right fun hzero => ⟨hzero.1, ?_⟩
        cases cs with
        | nil => exact absurd rfl hwhole.ne_nil
        | cons c cs =>
          rw [run_word_cons (isWordChar_of_isRadix hzero.2)]
          exact hzero.2
    · have heq : numberRest first cs = numberTail cs := by rw [numberRest, if_neg hradix]
      rw [heq] at h hwhole ⊢
      rw [numberRest, if_neg]
      · exact stable_numberTail.again h
      · refine fun hds => hradix ?_
        rw [Bool.or_eq_true, Bool.and_eq_true] at hds ⊢
        exact hds.imp_right fun hzero => ⟨hzero.1, hwhole.radix hzero.2⟩

/-! ## Literals and comments -/

/-- What is enclosed does not depend on what follows, if anything does: then it is closed. -/
def Closed (delimiter : List Char) (tail : List Char → Enclosed) : Prop :=
  ∀ {cs} ds, (tail cs).rest ≠ [] →
    (tail cs).closing = delimiter ∧ tail ((tail cs).text ++ ds) = { tail cs with rest := ds }

/-- A character other than a backslash closes a literal or is part of it. -/
theorem quotedTail_cons {quote c : Char} (hc : c ≠ '\\') (cs : List Char) :
    quotedTail quote (c :: cs) =
      if c = quote then ⟨[], [c], cs⟩ else (quotedTail quote cs).after [c] :=
  quotedTail.eq_4 quote c cs (fun h => absurd h hc) fun _ _ h => absurd h hc

/-- What is read of a literal does not depend on what follows its closing quote. -/
theorem closed_quotedTail {quote : Char} (hquote : quote ≠ '\\') :
    Closed [quote] (quotedTail quote) := by
  intro cs ds h
  fun_induction quotedTail quote cs with
  | case1 => exact absurd rfl h
  | case2 => exact absurd rfl h
  | case3 c cs ih =>
    obtain ⟨hclosing, hagain⟩ := ih h
    refine ⟨hclosing, ?_⟩
    rw [Enclosed.text_after, List.append_assoc, List.cons_append, List.cons_append,
      List.nil_append, quotedTail, hagain]
    rfl
  | case4 cs =>
    exact ⟨rfl, by rw [Enclosed.text, List.nil_append, List.singleton_append,
      quotedTail_cons hquote, if_pos rfl]⟩
  | case5 c cs hlast hescape hne ih =>
    have hc : c ≠ '\\' := by
      rintro rfl
      cases cs with
      | nil => exact hlast rfl rfl
      | cons d cs => exact hescape d cs rfl rfl
    obtain ⟨hclosing, hagain⟩ := ih h
    refine ⟨hclosing, ?_⟩
    rw [Enclosed.text_after, List.append_assoc, List.singleton_append, quotedTail_cons hc,
      if_neg hne, hagain]
    rfl

/-- A raw literal with something behind it is closed. -/
theorem closing_rawTail {hashes : Nat} (h : (rawTail hashes cs).rest ≠ []) :
    (rawTail hashes cs).closing = '"' :: List.replicate hashes '#' := by
  fun_induction rawTail hashes cs with
  | case1 => exact absurd rfl h
  | case2 => rfl
  | case3 c cs _ ih => exact ih h

/-- What is read of a raw literal does not depend on what follows its closing quote. -/
theorem closed_rawTail (hashes : Nat) :
    Closed ('"' :: List.replicate hashes '#') (rawTail hashes) := by
  intro cs ds h
  refine ⟨closing_rawTail h, ?_⟩
  fun_induction rawTail hashes cs with
  | case1 => exact absurd rfl h
  | case2 c cs hclose =>
    have hprefix : (List.replicate hashes '#').isPrefixOf (List.replicate hashes '#' ++ ds) :=
      List.isPrefixOf_iff_prefix.2 (List.prefix_append _ _)
    rw [Enclosed.text, List.nil_append, List.cons_append, rawTail, if_pos ⟨rfl, hprefix⟩,
      List.drop_left' List.length_replicate]
  | case3 c cs hopen ih =>
    have hopen' : ¬ (c = '"' ∧
        (List.replicate hashes '#').isPrefixOf ((rawTail hashes cs).text ++ ds)) := by
      rintro ⟨hc, hprefix⟩
      refine hopen ⟨hc, List.isPrefixOf_iff_prefix.2 ?_⟩
      -- The closing quote has all its hashes behind it, so the text is long enough.
      have hlength : (List.replicate hashes '#').length ≤ (rawTail hashes cs).text.length := by
        rw [Enclosed.text, closing_rawTail h]
        simp only [List.length_append, List.length_cons]
        omega
      have hinside := List.prefix_of_prefix_length_le (List.isPrefixOf_iff_prefix.1 hprefix)
        (List.prefix_append _ _) hlength
      exact hinside.trans ⟨_, rawTail_append hashes cs⟩
    rw [Enclosed.text_after, List.append_assoc, List.singleton_append, rawTail, if_neg hopen', ih h]
    rfl

/-- What is read of a comment does not depend on what follows its closing delimiter. -/
theorem closed_blockTail (depth : Nat) : Closed ['*', '/'] (blockTail depth) := by
  intro cs ds h
  fun_induction blockTail depth cs with
  | case1 => exact absurd rfl h
  | case2 depth cs ih =>
    obtain ⟨hclosing, hagain⟩ := ih h
    refine ⟨hclosing, ?_⟩
    rw [Enclosed.text_after, List.append_assoc, List.cons_append, List.cons_append,
      List.nil_append, blockTail, hagain]
    rfl
  | case3 => exact ⟨rfl, rfl⟩
  | case4 depth cs ih =>
    obtain ⟨hclosing, hagain⟩ := ih h
    refine ⟨hclosing, ?_⟩
    rw [Enclosed.text_after, List.append_assoc, List.cons_append, List.cons_append,
      List.nil_append, blockTail, hagain]
    rfl
  | case5 depth c cs hopen hclose hinner ih =>
    obtain ⟨hclosing, hagain⟩ := ih h
    refine ⟨hclosing, ?_⟩
    have happend := blockTail_append depth cs
    obtain ⟨d, text, htext⟩ : ∃ d text, (blockTail depth cs).text = d :: text := by
      refine List.exists_cons_of_ne_nil ?_
      rw [Enclosed.text, hclosing]
      exact List.append_ne_nil_of_right_ne_nil _ (List.cons_ne_nil _ _)
    rw [htext, List.cons_append] at happend
    rw [Enclosed.text_after, List.append_assoc, List.singleton_append, blockTail.eq_5, hagain]
    · rfl
    all_goals
      rw [htext, List.cons_append]
    · intro _ hc heq
      obtain ⟨rfl, -⟩ := List.cons.inj heq
      exact hopen _ hc happend.symm
    · intro _ hdepth hc heq
      obtain ⟨rfl, -⟩ := List.cons.inj heq
      exact hclose _ hdepth hc happend.symm
    · intro _ _ hdepth hc heq
      obtain ⟨rfl, -⟩ := List.cons.inj heq
      exact hinner _ _ hdepth hc happend.symm

end Lexeme
end Rust
end Ferrotype

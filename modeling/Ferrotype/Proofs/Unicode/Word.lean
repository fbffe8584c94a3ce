/-
# Words and numbers

No character starts both a word and a number, and every digit goes on in a word. Below code point
128 this is seen from the classes themselves; above, the boundaries of two classes are run through
side by side: no range of the letters meets one of the digits, and each range of the digits lies
inside one of the characters of a word.
-/

import Ferrotype.Unicode.Digit
import Ferrotype.Unicode.Letter

namespace Ferrotype
namespace Unicode

/-! ## Sets that do not meet -/

/-- Whether two sets with closed ranges are apart, as far as `steps` ranges show. -/
def apart : Nat → List Nat → List Nat → Bool
  | _, [], _ => true
  | _, _, [] => true
  | steps + 1, a :: a' :: as, b :: b' :: bs =>
    if a' ≤ b then apart steps as (b :: b' :: bs)
    else if b' ≤ a then apart steps (a :: a' :: as) bs
    else false
  | _, _, _ => false

/-- What lies within one list of bounds lies within none that is apart from it. The induction is on
the steps of the comparison. -/
theorem within_eq_false_of_apart {steps : Nat} {as bs : List Nat} (hapart : apart steps as bs)
    {n : Nat} (h : within as n) : within bs n = false := by
  fun_induction apart steps as bs with
  | case1 => cases h
  | case2 => rfl
  | case3 steps a a' as b b' bs hle ih =>
    rw [within_cons_cons] at h
    split at h
    · cases h
    · split at h
      · exact within_of_lt (by omega) _
      · exact ih hapart h
  | case4 steps a a' as b b' bs _ hle ih =>
    have hn : a ≤ n := by
      rw [within_cons_cons] at h
      split at h
      · cases h
      · omega
    rw [within_cons_cons]
    split
    · rfl
    · rw [if_neg (by omega)]
      exact ih hapart h
  | case5 => cases hapart
  | case6 => cases hapart

/-! ## Sets inside others -/

/-- Whether each closed range of one set lies inside a range of another, as far as `steps` ranges
show. -/
def covered : Nat → List Nat → List Nat → Bool
  | _, [], _ => true
  | steps + 1, a :: a' :: as, b :: b' :: bs =>
    if b ≤ a ∧ a' ≤ b' then covered steps as (b :: b' :: bs)
    else b ≤ b' && b' ≤ a && covered steps (a :: a' :: as) bs
  | _, _, _ => false

/-- What lies within one list of bounds lies within one that covers it. -/
theorem within_of_covered {steps : Nat} {as bs : List Nat} (hcovered : covered steps as bs)
    {n : Nat} (h : within as n) : within bs n := by
  fun_induction covered steps as bs with
  | case1 => cases h
  | case2 steps a a' as b b' bs hin ih =>
    rw [within_cons_cons] at h
    split at h
    · cases h
    · split at h
      · rw [within_cons_cons, if_neg (by omega), if_pos (by omega)]
      · exact ih hcovered h
  | case3 steps a a' as b b' bs _ ih =>
    simp only [Bool.and_eq_true, decide_eq_true_eq] at hcovered
    have hn : a ≤ n := by
      rw [within_cons_cons] at h
      split at h
      · cases h
      · omega
    rw [within_cons_cons, if_neg (by omega), if_neg (by omega)]
    exact ih hcovered.2 h
  | case4 => cases hcovered

/-! ## Letters and digits -/

/-- No letter is a digit. -/
theorem apart_letters_digits : apart 2000 letterBounds digitBounds := by
  decide +kernel

/-- The same of characters. -/
theorem isDigit_of_isAlpha {c : Char} (h : c.isAlpha) : c.isDigit = false := by
  rw [Bool.eq_false_iff]
  intro hd
  delta Char.isAlpha Char.isUpper Char.isLower Char.isDigit at h hd
  simp only [Bool.or_eq_true, Bool.and_eq_true, decide_eq_true_eq, UInt32.le_iff_toNat_le,
    ge_iff_le] at h hd
  have h9 : '9'.val.toNat = 57 := rfl
  have hA : 'A'.val.toNat = 65 := rfl
  have ha : 'a'.val.toNat = 97 := rfl
  omega

/-- **A word does not start like a number.** -/
theorem isDigit_of_isWordStart {c : Char} (h : isWordStart c) : isDigit c = false := by
  rw [isWordStart, Bool.or_eq_true, beq_iff_eq] at h
  rcases h with h | rfl
  · unfold isLetter at h
    unfold isDigit
    split
    · rename_i hc
      rw [if_pos hc] at h
      exact isDigit_of_isAlpha h
    · rename_i hc
      rw [if_neg hc] at h
      exact within_eq_false_of_apart apart_letters_digits h
  · rfl

/-- Digits are alphanumeric. -/
theorem covered_digits : covered 2000 digitBounds alphanumericBounds := by
  decide +kernel

/-- **Digits go on in words, too.** -/
theorem isWordChar_of_isDigit {c : Char} (h : isDigit c) : isWordChar c := by
  rw [isWordChar, Bool.or_eq_true]
  refine .inl ?_
  unfold isDigit at h
  unfold isAlphanumeric
  split
  · rename_i hc
    rw [if_pos hc] at h
    rw [Char.isAlphanum, h, Bool.or_true]
  · rename_i hc
    rw [if_neg hc] at h
    exact within_of_covered covered_digits h

/-- Letters are alphanumeric. -/
theorem covered_letters : covered 2000 letterBounds alphanumericBounds := by
  decide +kernel

/-- The first character of a word goes on in a word, too. -/
theorem isWordChar_of_isWordStart {c : Char} (h : isWordStart c) : isWordChar c := by
  rw [isWordStart, Bool.or_eq_true] at h
  rw [isWordChar, Bool.or_eq_true]
  refine h.imp_left fun h => ?_
  unfold isLetter at h
  unfold isAlphanumeric
  split
  · rename_i hc
    rw [if_pos hc] at h
    rw [Char.isAlphanum, h, Bool.true_or]
  · rename_i hc
    rw [if_neg hc] at h
    exact within_of_covered covered_letters h

/-- The digits of the first code points are digits. -/
theorem isDigit_of_ascii {c : Char} (h : c.isDigit) : isDigit c := by
  have hc : c.toNat < 128 := by
    have h9 : '9'.toNat = 57 := rfl
    have hle := (Char.isDigit_iff_toNat.1 h).2
    omega
  rw [isDigit, if_pos hc, h]

end Unicode
end Ferrotype

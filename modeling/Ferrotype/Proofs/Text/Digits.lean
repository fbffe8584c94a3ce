/-
# Numbers in digits

The number that digits write in a base, and the number that a decimal fraction writes: its digits as
one whole number, scaled by a power of ten.
-/

import Ferrotype.Proofs.Text.Hexadecimal
import Mathlib.Algebra.Field.Rat
import Mathlib.Data.List.Induction
import Mathlib.Tactic.Ring

namespace Ferrotype
namespace Text

/-- Whether a character is a digit of a base. -/
def isDigitOf (base : Nat) (c : Char) : Bool := (Hexadecimal.value? c).any (· < base)

/-- The digits of any base are hexadecimal ones. -/
theorem isDigit_of_isDigitOf {base : Nat} {c : Char} (h : isDigitOf base c) :
    Hexadecimal.isDigit c := by
  rw [isDigitOf] at h
  rw [Hexadecimal.isDigit]
  cases hvalue : Hexadecimal.value? c with
  | none =>
    rw [hvalue] at h
    cases h
  | some d => rfl

/-- The digits of a base are among the first characters. -/
theorem toNat_of_isDigitOf {base : Nat} {c : Char} (h : isDigitOf base c) : c.toNat < 103 :=
  Nat.lt_succ_of_le (Hexadecimal.toNat_of_isDigit (isDigit_of_isDigitOf h)).2

/-- They are letters or digits. -/
theorem isAlphanum_of_isDigitOf {base : Nat} {c : Char} (h : isDigitOf base c) :
    c.isAlphanum := by
  have hall : ∀ n < 103, Hexadecimal.isDigit (Char.ofNat n) → (Char.ofNat n).isAlphanum := by
    decide
  have hc := hall c.toNat (toNat_of_isDigitOf h)
  rw [Char.ofNat_toNat] at hc
  exact hc (isDigit_of_isDigitOf h)

/-- The digits of base ten. -/
theorem isDigitOf_ten (c : Char) : isDigitOf 10 c = c.isDigit := by
  have hall : ∀ n < 103, isDigitOf 10 (Char.ofNat n) = (Char.ofNat n).isDigit := by decide
  by_cases hc : c.toNat < 103
  · have heq := hall c.toNat hc
    rwa [Char.ofNat_toNat] at heq
  · have hnine : '9'.toNat = 57 := rfl
    have hno : ¬ c.isDigit := fun h => by
      have hle := (Char.isDigit_iff_toNat.1 h).2
      omega
    rw [Bool.eq_false_iff.2 hno, Bool.eq_false_iff]
    exact fun h => hc (toNat_of_isDigitOf h)

/-- The number that digits write, one after the other. -/
def ofDigits (base : Nat) (cs : List Char) : Nat :=
  cs.foldl (fun n c => base * n + (Hexadecimal.value? c).getD 0) 0

/-- The number that a text writes, if it is one of digits. -/
def natural? (base : Nat) (cs : List Char) : Option Nat :=
  if !cs.isEmpty && cs.all (isDigitOf base) then some (ofDigits base cs) else none

/-- Digits denote their number. -/
theorem natural?_of_digits {base : Nat} {cs : List Char} (hne : cs ≠ [])
    (h : ∀ c ∈ cs, isDigitOf base c) : natural? base cs = some (ofDigits base cs) := by
  rw [natural?, if_pos]
  rw [Bool.and_eq_true, Bool.not_eq_true', List.isEmpty_eq_false_iff, List.all_eq_true]
  exact ⟨hne, h⟩

/-- A character that is no digit spoils the number. -/
theorem natural?_eq_none {base : Nat} {cs : List Char} {c : Char} (hmem : c ∈ cs)
    (hc : isDigitOf base c = false) : natural? base cs = none := by
  rw [natural?, if_neg]
  intro h
  have hdigit := List.all_eq_true.1 (Bool.and_eq_true_iff.1 h).2 c hmem
  rw [hc] at hdigit
  cases hdigit

/-- A digit behind others counts once, and they count once more by the base. -/
theorem ofDigits_append_singleton (base : Nat) (cs : List Char) (c : Char) :
    ofDigits base (cs ++ [c]) =
      base * ofDigits base cs + (Hexadecimal.value? c).getD 0 := by
  rw [ofDigits, List.foldl_append, List.foldl_cons, List.foldl_nil, ofDigits]

/-- Behind a whole number digits count as a fraction of it. -/
theorem ofDigits_append (cs ds : List Char) :
    ((ofDigits 10 (cs ++ ds) : Nat) : ℚ) =
      (ofDigits 10 cs + ofDigits 10 ds / (10 : ℚ) ^ ds.length) * (10 : ℚ) ^ ds.length := by
  have hten (n : Nat) : (10 : ℚ) ^ n ≠ 0 := pow_ne_zero n (by norm_num)
  rw [add_mul, div_mul_cancel₀ _ (hten ds.length)]
  induction ds using List.reverseRecOn with
  | nil => simp [ofDigits]
  | append_singleton ds d ih =>
    rw [← List.append_assoc, ofDigits_append_singleton, ofDigits_append_singleton,
      List.length_append, List.length_singleton, pow_succ]
    push_cast
    rw [ih]
    ring

/-- Digits behind a point are scaled down as often as there are places. -/
theorem ofDigits_append_scaled (cs ds : List Char) (e : ℤ) :
    ((ofDigits 10 (cs ++ ds) : Nat) : ℚ) * (10 : ℚ) ^ (e - (ds.length : ℤ)) =
      (ofDigits 10 cs + ofDigits 10 ds / (10 : ℚ) ^ ds.length) * (10 : ℚ) ^ e := by
  have hten : (10 : ℚ) ≠ 0 := by norm_num
  rw [ofDigits_append, zpow_sub₀ hten, zpow_natCast, mul_assoc,
    mul_div_cancel₀ _ (pow_ne_zero ds.length hten)]

end Text
end Ferrotype

/-
# The case of ASCII text

Below code point 128 the case mappings know the letters `A` to `Z` and `a` to `z` alone, and each
character becomes one character. So a text of such characters is mapped character by character
(`lower_eq_map`, `upper_eq_map`), and capitalizing it changes the first one only.
-/

import Ferrotype.Unicode.Blank
import Ferrotype.Unicode.CaseMap

namespace Ferrotype
namespace Unicode

/-! ## Letters and digits -/

/-- The characters of a text are below code point 128. -/
def IsAscii (cs : List Char) : Prop := ∀ c ∈ cs, c.toNat < 128

/-- Letters and digits of ASCII have small numbers. -/
theorem toNat_lt_of_isAlphanum {c : Char} (h : c.isAlphanum) : c.toNat < 128 := by
  have hranges : (decide (c.val ≥ 'A'.val ∧ c.val ≤ 'Z'.val) ||
      (decide (c.val ≥ 'a'.val) && decide (c.val ≤ 'z'.val)) ||
      (decide (c.val ≥ '0'.val) && decide (c.val ≤ '9'.val))) = true := h
  simp only [Bool.or_eq_true, Bool.and_eq_true, decide_eq_true_eq, UInt32.le_iff_toNat_le,
    ge_iff_le] at hranges
  have hnine : '9'.val.toNat = 57 := rfl
  have hZ : 'Z'.val.toNat = 90 := rfl
  have hz : 'z'.val.toNat = 122 := rfl
  show c.val.toNat < 128
  omega

/-- Letters and digits are no white space. -/
theorem isBlank_of_isAlphanum {c : Char} (h : c.isAlphanum) : isBlank c = false := by
  have hall : ∀ n < 128, (Char.ofNat n).isAlphanum → isBlank (Char.ofNat n) = false := by decide
  have hc := hall c.toNat (toNat_lt_of_isAlphanum h)
  rw [Char.ofNat_toNat] at hc
  exact hc h

/-! ## Case mappings -/

/-- A text of ASCII is written in small letters one by one, whatever stands before it. -/
theorem lowerAfter_eq_map {before cs : List Char} (h : IsAscii cs) :
    lowerAfter before cs = cs.map Char.toLower := by
  induction cs generalizing before with
  | nil => rfl
  | cons c cs ih =>
    obtain ⟨hc, hcs⟩ := List.forall_mem_cons.1 h
    have hsigma : c ≠ 'Σ' := by
      rintro rfl
      exact absurd hc (by decide)
    rw [lowerAfter, if_neg hsigma, lowerChar, if_pos hc, ih hcs]
    rfl

/-- The same of the whole text. -/
theorem lower_eq_map {cs : List Char} (h : IsAscii cs) : lower cs = cs.map Char.toLower :=
  lowerAfter_eq_map h

/-- The same of capitals. -/
theorem upper_eq_map {cs : List Char} (h : IsAscii cs) : upper cs = cs.map Char.toUpper := by
  induction cs with
  | nil => rfl
  | cons c cs ih =>
    obtain ⟨hc, hcs⟩ := List.forall_mem_cons.1 h
    have hstep : upper (c :: cs) = upperChar c ++ upper cs := rfl
    rw [hstep, upperChar, if_pos hc, ih hcs]
    rfl

/-- The title case of an ASCII character is its upper case: no exception is below code point 128. -/
theorem titleChar_eq {c : Char} (h : c.toNat < 128) : titleChar c = [c.toUpper] := by
  have hexceptions : ∀ entry ∈ titleExceptions, 128 ≤ entry.1 := by decide +kernel
  have hnone : titleExceptions.lookup c.toNat = none := by
    refine List.lookup_eq_none_iff.2 fun entry hentry => ?_
    have hle := hexceptions entry hentry
    rw [bne_iff_ne]
    omega
  rw [titleChar, hnone, upperChar, if_pos h]

/-- The first character becomes a capital. -/
theorem capitalize_cons {c : Char} (h : c.toNat < 128) (cs : List Char) :
    capitalize (c :: cs) = c.toUpper :: cs := by
  rw [capitalize, titleChar_eq h]
  rfl

end Unicode
end Ferrotype

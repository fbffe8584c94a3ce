/-
# Reading numbers

What a numeric literal of TypeScript denotes in strict mode: a whole number with a prefix for its
base, or a decimal number, in which a zero in front of the point is the only digit there. A minus
sign may stand before it. Separators and suffixes are not read.
-/

import Ferrotype.Proofs.Text.Digits
import Ferrotype.Text.Pieces

namespace Ferrotype
namespace TypeScript

open Text (natural? takeWhile_append_of_head?)

/-! ## Reading -/

/-- The base that a letter behind a zero announces. -/
def base? (c : Char) : Option Nat :=
  match c.toLower with
  | 'x' => some 16
  | 'o' => some 8
  | 'b' => some 2
  | _ => none

/-- The exponent behind its letter; without a letter it is zero. -/
def exponentValue? : List Char → Option ℤ
  | [] => some 0
  | _ :: '-' :: ds => (natural? 10 ds).map fun n => -(n : ℤ)
  | _ :: '+' :: ds => (natural? 10 ds).map fun n => (n : ℤ)
  | _ :: ds => (natural? 10 ds).map fun n => (n : ℤ)

/-- Whether a character does not start an exponent. -/
def isMantissa (c : Char) : Bool := c != 'e' && c != 'E'

/-- What a decimal literal denotes: its digits, scaled by the exponent and the places behind the
point. -/
def decimalValue? (cs : List Char) : Option ℚ :=
  let mantissa := cs.takeWhile isMantissa
  let whole := mantissa.takeWhile (· != '.')
  let places := (mantissa.dropWhile (· != '.')).drop 1
  if whole.head? = some '0' ∧ 1 < whole.length then none
  else
    (natural? 10 (whole ++ places)).bind fun n =>
      (exponentValue? (cs.dropWhile isMantissa)).map fun e =>
        (n : ℚ) * (10 : ℚ) ^ (e - (places.length : ℤ))

/-- What a literal without a sign denotes. -/
def unsignedValue? : List Char → Option ℚ
  | '0' :: c :: cs =>
    match base? c with
    | some base => (natural? base cs).map fun n => (n : ℚ)
    | none => decimalValue? ('0' :: c :: cs)
  | cs => decimalValue? cs

/-- What a literal denotes. -/
def numberValue? : List Char → Option ℚ
  | '-' :: cs => (unsignedValue? cs).map fun q => -q
  | cs => unsignedValue? cs

/-! ## The parts of a literal -/

/-- Whether characters are a point and digits behind it, or nothing. -/
def IsFractional (cs : List Char) : Prop :=
  cs = [] ∨ ∃ places, cs = '.' :: places ∧ ∀ c ∈ places, c.isDigit

/-- A digit is part of a mantissa and no point. -/
theorem isMantissa_of_isDigit {c : Char} (h : c.isDigit) : isMantissa c ∧ c ≠ '.' := by
  have hne {d : Char} (hd : d.isDigit = false) : c ≠ d := by
    rintro rfl
    rw [hd] at h
    cases h
  refine ⟨?_, hne (by decide)⟩
  rw [isMantissa, Bool.and_eq_true, bne_iff_ne, bne_iff_ne]
  exact ⟨hne (by decide), hne (by decide)⟩

/-- A decimal literal is taken apart at its point and at its exponent. -/
theorem decimalValue?_append {whole fractional power : List Char}
    (hwhole : ∀ c ∈ whole, c.isDigit) (hfractional : IsFractional fractional)
    (hpower : ∀ c ∈ power.head?, c = 'e' ∨ c = 'E') :
    decimalValue? (whole ++ (fractional ++ power)) =
      if whole.head? = some '0' ∧ 1 < whole.length then none
      else
        (natural? 10 (whole ++ fractional.drop 1)).bind fun n =>
          (exponentValue? power).map fun e =>
            (n : ℚ) * (10 : ℚ) ^ (e - ((fractional.drop 1).length : ℤ)) := by
  have hmantissa : ∀ c ∈ whole ++ fractional, isMantissa c := by
    rw [List.forall_mem_append]
    refine ⟨fun c hc => (isMantissa_of_isDigit (hwhole c hc)).1, ?_⟩
    rcases hfractional with rfl | ⟨places, rfl, hplaces⟩
    · exact List.forall_mem_nil _
    · exact List.forall_mem_cons.2 ⟨rfl, fun c hc => (isMantissa_of_isDigit (hplaces c hc)).1⟩
  have hletter : ∀ c ∈ power.head?, isMantissa c = false := fun c hc => by
    rcases hpower c hc with rfl | rfl <;> rfl
  have hpoint : ∀ c ∈ fractional.head?, (c != '.') = false := by
    rcases hfractional with rfl | ⟨places, rfl, -⟩
    · simp
    · rintro _ ⟨⟩
      rfl
  obtain ⟨htake, hdrop⟩ := takeWhile_append_of_head? hmantissa hletter
  obtain ⟨htakeWhole, hdropWhole⟩ := takeWhile_append_of_head?
    (p := (· != '.')) (fun c hc => bne_iff_ne.2 (isMantissa_of_isDigit (hwhole c hc)).2) hpoint
  rw [List.append_assoc] at htake hdrop
  simp only [decimalValue?, htake, hdrop, htakeWhole, hdropWhole]

end TypeScript
end Ferrotype

/-
# Numbers with separators

An underscore counts for nothing in a numeric literal, but it has to stand between two digits: not
in front of the digits or behind them, not next to another one, and not behind a zero that starts a
decimal number. `separatedValue?` reads literals with such separators.
-/

import Ferrotype.Proofs.TypeScript.Number

namespace Ferrotype
namespace TypeScript

open Text (isDigitOf natural?)

/-! ## Reading -/

/-- The base of the digits of a literal without a sign. -/
def announcedBase : List Char → Nat
  | '0' :: c :: _ => (base? c).getD 10
  | _ => 10

/-- Whether every underscore of a text stands between two digits of a base; the flag says whether a
digit stands in front of the text. -/
def isSeparated (base : Nat) : Bool → List Char → Bool
  | _, [] => true
  | _, ['_'] => false
  | digit, '_' :: c :: cs => digit && isDigitOf base c && isSeparated base true cs
  | _, c :: cs => isSeparated base (isDigitOf base c) cs

/-- What a literal without a sign denotes, with separators or without. -/
def unsignedSeparated? (cs : List Char) : Option ℚ :=
  if isSeparated (announcedBase cs) false cs then unsignedValue? (cs.filter (· != '_')) else none

/-- What a literal denotes, with separators or without. -/
def separatedValue? : List Char → Option ℚ
  | '-' :: cs => (unsignedSeparated? cs).map fun q => -q
  | cs => unsignedSeparated? cs

/-! ## Where separators stand -/

/-- A character that is no underscore is one that stands next to others, or not, as a digit. -/
theorem isSeparated_cons {c : Char} (hc : c ≠ '_') (base : Nat) (digit : Bool) (cs : List Char) :
    isSeparated base digit (c :: cs) = isSeparated base (isDigitOf base c) cs := by
  rw [isSeparated]
  · exact fun h _ => hc h
  · exact fun _ _ h _ => hc h

/-- The sign of a literal negates what it denotes. -/
theorem separatedValue?_signed {cs : List Char} (h : cs.head? ≠ some '-') (negative : Bool) :
    separatedValue? ((if negative then ['-'] else []) ++ cs) =
      (unsignedSeparated? cs).map fun q => if negative then -q else q := by
  cases negative with
  | true => rfl
  | false =>
    simp only [Bool.false_eq_true, if_false, List.nil_append, Option.map_id']
    unfold separatedValue?
    split
    · exact absurd rfl h
    · rfl

/-! ## What denotes nothing -/

/-- What holds anything but digits in front of its point and its exponent is no decimal number. -/
theorem decimalValue?_eq_none {xs ys : List Char} (hxs : ∀ x ∈ xs, x.isDigit) {c : Char}
    (hc : c.isDigit = false) (hmantissa : isMantissa c) (hpoint : c ≠ '.') :
    decimalValue? (xs ++ c :: ys) = none := by
  have htake {p : Char → Bool} (hxs : ∀ x ∈ xs, p x) (hc : p c) (zs : List Char) :
      (xs ++ c :: zs).takeWhile p = xs ++ c :: zs.takeWhile p := by
    rw [List.takeWhile_append_of_pos hxs, List.takeWhile_cons_of_pos hc]
  have hnatural (places zs : List Char) : natural? 10 (xs ++ c :: zs ++ places) = none := by
    refine Text.natural?_eq_none (c := c) (by simp) ?_
    rw [Text.isDigitOf_ten, hc]
  rw [decimalValue?, htake (fun x hx => (isMantissa_of_isDigit (hxs x hx)).1) hmantissa,
    htake (p := (· != '.')) (fun x hx => bne_iff_ne.2 (isMantissa_of_isDigit (hxs x hx)).2)
      (bne_iff_ne.2 hpoint), hnatural]
  split <;> rfl

end TypeScript
end Ferrotype

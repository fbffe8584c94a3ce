/-
# Numbers in hexadecimal digits

`read?` accepts signs, blanks, underscores and digits of every script; of plain hexadecimal digits
it gives the number that they denote (`read?_of_isDigit`). Behind each other, the digits of `padded`
denote the number they were made of (`number_padded_four`).
-/

import Ferrotype.Text.Hexadecimal

namespace Ferrotype
namespace Text
namespace Hexadecimal

/-- Whether a character is a hexadecimal digit. -/
def isDigit (c : Char) : Bool := (value? c).isSome

/-- The number that digits denote, behind digits of a number. -/
def numberFrom (acc : Nat) (cs : List Char) : Nat :=
  cs.foldl (fun n c => 16 * n + (value? c).getD 0) acc

/-- The number that digits denote. -/
def number (cs : List Char) : Nat := numberFrom 0 cs

/-! ## Digits -/

/-- The codes of hexadecimal digits. -/
theorem toNat_of_isDigit {c : Char} (h : isDigit c) : 48 ≤ c.toNat ∧ c.toNat ≤ 102 := by
  unfold isDigit value? at h
  have h0 : '0'.toNat = 48 := rfl
  have h9 : '9'.toNat = 57 := rfl
  have ha : 'a'.toNat = 97 := rfl
  have hf : 'f'.toNat = 102 := rfl
  have hA : 'A'.toNat = 65 := rfl
  have hF : 'F'.toNat = 70 := rfl
  split at h
  · rename_i hc
    have hlow : '0'.toNat ≤ c.toNat := hc.1
    have hhigh : c.toNat ≤ '9'.toNat := hc.2
    omega
  · split at h
    · rename_i hc
      have hlow : 'a'.toNat ≤ c.toNat := hc.1
      have hhigh : c.toNat ≤ 'f'.toNat := hc.2
      omega
    · split at h
      · rename_i hc
        have hlow : 'A'.toNat ≤ c.toNat := hc.1
        have hhigh : c.toNat ≤ 'F'.toNat := hc.2
        omega
      · cases h

/-- A digit is no other character. -/
theorem ne_of_isDigit {c d : Char} (h : isDigit c) (hd : isDigit d = false) : c ≠ d := by
  rintro rfl
  rw [hd] at h
  cases h

/-- No digit is a blank around a number. -/
theorem isMargin_of_isDigit {c : Char} (h : isDigit c) : isMargin c = false := by
  have hlow := (toNat_of_isDigit h).1
  have hspace : c ≠ ' ' := ne_of_isDigit h rfl
  rw [isMargin, beq_eq_false_iff_ne.2 hspace, Bool.false_or, Bool.and_eq_false_iff,
    decide_eq_false_iff_not, decide_eq_false_iff_not]
  omega

/-- Every digit has a value. -/
theorem value?_of_isDigit {c : Char} (h : isDigit c) : value? c = some ((value? c).getD 0) := by
  obtain ⟨d, hd⟩ := Option.isSome_iff_exists.1 h
  rw [hd]
  rfl

/-! ## Reading digits -/

section Digits

variable {cs : List Char} (h : ∀ c ∈ cs, isDigit c)
include h

/-- Digits are read one by one. The induction is on them. -/
theorem digitsFrom?_of_isDigit (acc : Nat) : digitsFrom? acc cs = some (numberFrom acc cs) := by
  induction cs generalizing acc with
  | nil => rfl
  | cons c cs ih =>
    obtain ⟨hc, hcs⟩ := List.forall_mem_cons.1 h
    have hunderscore : c ≠ '_' := ne_of_isDigit hc rfl
    rw [digitsFrom?.eq_3 acc c cs fun _ _ hc => absurd hc hunderscore, value?_of_isDigit hc]
    exact ih hcs _

/-- Digits denote their number. -/
theorem digits?_of_isDigit (hne : cs ≠ []) : digits? cs = some (number cs) := by
  obtain ⟨c, tail, rfl⟩ := List.exists_cons_of_ne_nil hne
  obtain ⟨hc, htail⟩ := List.forall_mem_cons.1 h
  rw [digits?, value?_of_isDigit hc, Option.bind_some, digitsFrom?_of_isDigit htail]
  simp [number, numberFrom]

/-- Digits hold no `x`, so none of them are taken for the letters that announce a number. -/
theorem natural?_of_isDigit : natural? cs = digits? cs := by
  have hx : ∀ x, x ∈ cs → ¬ (x = 'x' ∨ x = 'X') := fun x hmem =>
    not_or.2 ⟨ne_of_isDigit (h x hmem) rfl, ne_of_isDigit (h x hmem) rfl⟩
  unfold natural?
  split
  · exact if_neg (hx _ (by simp))
  · exact if_neg (hx _ (by simp))
  · rfl

/-- Digits alone have no sign. -/
theorem signed?_of_isDigit : signed? cs = (natural? cs).map Int.ofNat := by
  unfold signed?
  split
  · exact absurd rfl (ne_of_isDigit (h _ List.mem_cons_self) rfl)
  · exact absurd rfl (ne_of_isDigit (h _ List.mem_cons_self) rfl)
  · rfl

/-- No blanks stand in front of digits. -/
theorem dropWhile_isMargin_of_isDigit : cs.dropWhile isMargin = cs := by
  cases cs with
  | nil => rfl
  | cons c cs =>
    have hc := isMargin_of_isDigit (h c List.mem_cons_self)
    rw [List.dropWhile_cons_of_neg (by rw [hc]; exact Bool.false_ne_true)]

/-- **Digits are read as the number that they denote.** -/
theorem read?_of_isDigit (hne : cs ≠ []) : read? cs = some (number cs : Int) := by
  have hbasic : basicText? cs = some cs := by
    refine if_pos (List.all_eq_true.2 fun c hc => ?_)
    have hhigh := (toNat_of_isDigit (h c hc)).2
    exact decide_eq_true (by omega)
  have hreverse : cs.reverse.dropWhile isMargin = cs.reverse :=
    dropWhile_isMargin_of_isDigit fun c hc => h c (List.mem_reverse.1 hc)
  rw [read?, hbasic, Option.bind_some, dropWhile_isMargin_of_isDigit h, hreverse,
    List.reverse_reverse, signed?_of_isDigit h, natural?_of_isDigit h, digits?_of_isDigit h hne]
  rfl

end Digits

/-! ## Writing digits -/

/-- A digit has the value it was written for. -/
theorem value?_digit : ∀ n < 16, value? (digit n) = some n := by
  decide

/-- A number of four digits. -/
theorem padded_four (n : Nat) : padded 4 n =
    [digit (n / 16 / 16 / 16 % 16), digit (n / 16 / 16 % 16), digit (n / 16 % 16),
      digit (n % 16)] := rfl

/-- The values of four digits make up the number again. -/
theorem mapM_value?_padded_four {n : Nat} (h : n < 0x10000) :
    ((padded 4 n).mapM value?).map (·.foldl (fun n digit => 16 * n + digit) 0) = some n := by
  have hdigit (m : Nat) : value? (digit (m % 16)) = some (m % 16) :=
    value?_digit _ (Nat.mod_lt m (by decide))
  have hsum : 16 * (16 * (16 * (16 * 0 + n / 16 / 16 / 16 % 16) + n / 16 / 16 % 16) + n / 16 % 16) +
      n % 16 = n := by
    omega
  rw [padded_four]
  simp only [List.mapM_cons, List.mapM_nil, hdigit, Option.pure_def, Option.bind_eq_bind,
    Option.bind_some, Option.map_some, List.foldl_cons, List.foldl_nil, hsum]

end Hexadecimal
end Text
end Ferrotype

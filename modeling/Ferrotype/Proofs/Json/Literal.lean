/-
# Literals are JSON strings

A literal in double quotes is read back as the text it was made of (`read_literalWith`), whichever
characters stand for themselves in it, as long as no control character does. The characters are read
one by one: those behind a backslash by their letter, the others as they are or by their UTF-16
units, of which a high surrogate takes the low one that follows it.
-/

import Ferrotype.Json.Read
import Ferrotype.Proofs.Text.Hexadecimal
import Ferrotype.Text.Literal

namespace Ferrotype
namespace Json

open Text (literalChar literalWith unitEscape units16)
open Text.Hexadecimal (padded)

/-- What a reader gives: a value, and the characters that are left. -/
def Gives {α : Type} {n : Nat} (result : Result (Parsed α n)) (value : α) (rest : List Char) :
    Prop :=
  ∃ r, result = .ok r ∧ r.value = value ∧ r.rest = rest

/-! ## Units -/

/-- Four digits are read as the unit they were made of, if anything follows them. -/
theorem unit?_padded {n : Nat} (h : n < 0x10000) {tail : List Char} (htail : tail ≠ []) :
    unit? (padded 4 n ++ tail) = some (n, tail) := by
  obtain ⟨e, rest, rfl⟩ := List.exists_cons_of_ne_nil htail
  have hdigits := Text.Hexadecimal.mapM_value?_padded_four h
  obtain ⟨digits, hmapM, hnumber⟩ := Option.map_eq_some_iff.1 hdigits
  rw [Text.Hexadecimal.padded_four] at hmapM ⊢
  simp only [List.cons_append, List.nil_append, unit?, hmapM, Option.map_some, hnumber]

/-- A unit that is no first half of a pair stands for itself. -/
theorem finishPair_of_not_isHigh {unit : Nat} (h : isHigh unit = false) (rest : List Char) :
    finishPair unit rest = .ok (unitChar unit, rest) := by
  unfold finishPair
  split
  · rw [h, Bool.false_and, if_neg Bool.false_ne_true]
  · rfl

/-- The two halves of a pair stand for one character. -/
theorem finishPair_of_isHigh {high low : Nat} (hhigh : isHigh high) (hlow : isLow low)
    (hbound : low < 0x10000) {tail : List Char} (htail : tail ≠ []) :
    finishPair high (unitEscape low ++ tail) = .ok (pairChar high low, tail) := by
  have hlength : 5 ≤ (padded 4 low ++ tail).length := by
    have hpos := List.length_pos_iff.2 htail
    rw [List.length_append, Text.Hexadecimal.length_padded]
    omega
  have henough : (isHigh high && decide (5 ≤ (padded 4 low ++ tail).length)) = true := by
    rw [hhigh, decide_eq_true hlength]
    rfl
  rw [unitEscape, List.cons_append, List.cons_append, finishPair, if_pos henough,
    unit?_padded hbound htail]
  simp only [hlow, if_true]

/-- A character outside the surrogates is the one of its own number. -/
theorem unitChar_toNat (c : Char) : unitChar c.toNat = c := by
  have hvalid : c.toNat < 0xD800 ∨ 0xDFFF < c.toNat ∧ c.toNat < 0x110000 := c.valid
  have hnone : (isHigh c.toNat || isLow c.toNat) = false := by
    simp only [isHigh, isLow, Bool.or_eq_false_iff, Bool.and_eq_false_iff, decide_eq_false_iff_not]
    omega
  rw [unitChar, hnone, if_neg Bool.false_ne_true, Char.ofNat_toNat]

/-- An escape by number gives the character that it and the one behind it make up. -/
theorem escapedChar_unit {opened unit : Nat} {cs rest after : List Char} {c : Char}
    (hunit : unit? cs = some (unit, rest)) (hpair : finishPair unit rest = .ok (c, after)) :
    Gives (escapedChar opened ('u' :: cs)) c after := by
  rw [escapedChar]
  split
  · rename_i hnone
    rw [hunit] at hnone
    cases hnone
  · rename_i unit' rest' hsome
    rw [hunit] at hsome
    obtain ⟨rfl, rfl⟩ := Prod.mk.inj (Option.some.inj hsome)
    split
    · rename_i herror
      rw [hpair] at herror
      cases herror
    · rename_i c' after' hok
      rw [hpair] at hok
      obtain ⟨rfl, rfl⟩ := Prod.mk.inj (Except.ok.inj hok)
      exact ⟨_, rfl, rfl, rfl⟩

/-- **The units of a character are read as the character.** -/
theorem escapedChar_units16 (opened : Nat) (c : Char) {tail : List Char} (htail : tail ≠ []) :
    ∃ escape, (units16 c).flatMap unitEscape ++ tail = '\\' :: escape ∧
      Gives (escapedChar opened escape) c tail := by
  have hvalid : c.toNat < 0xD800 ∨ 0xDFFF < c.toNat ∧ c.toNat < 0x110000 := c.valid
  rw [units16]
  split
  · rename_i hone
    have hhigh : isHigh c.toNat = false := by
      rw [isHigh, Bool.and_eq_false_iff, decide_eq_false_iff_not, decide_eq_false_iff_not]
      omega
    have hpair := finishPair_of_not_isHigh hhigh tail
    rw [unitChar_toNat] at hpair
    exact ⟨_, rfl, escapedChar_unit (unit?_padded hone htail) hpair⟩
  · rename_i htwo
    have hhigh : isHigh (0xD800 + (c.toNat - 0x10000) / 0x400) := by
      rw [isHigh, Bool.and_eq_true, decide_eq_true_eq, decide_eq_true_eq]
      omega
    have hlow : isLow (0xDC00 + (c.toNat - 0x10000) % 0x400) := by
      rw [isLow, Bool.and_eq_true, decide_eq_true_eq, decide_eq_true_eq]
      omega
    have hchar : pairChar (0xD800 + (c.toNat - 0x10000) / 0x400)
        (0xDC00 + (c.toNat - 0x10000) % 0x400) = c := by
      have hsum : 0x10000 + (0xD800 + (c.toNat - 0x10000) / 0x400 - 0xD800) * 0x400 +
          (0xDC00 + (c.toNat - 0x10000) % 0x400 - 0xDC00) = c.toNat := by
        omega
      rw [pairChar, hsum, Char.ofNat_toNat]
    have hpair := finishPair_of_isHigh hhigh hlow (by omega) htail
    rw [hchar] at hpair
    have hmore : unitEscape (0xDC00 + (c.toNat - 0x10000) % 0x400) ++ tail ≠ [] :=
      List.cons_ne_nil _ _
    refine ⟨_, ?_, escapedChar_unit (unit?_padded (by omega) hmore) hpair⟩
    simp [unitEscape]

/-! ## Characters -/

/-- How a character is written: by a letter behind a backslash, as it is, or by its units. -/
theorem literalChar_cases {plain : Char → Bool} (hplain : ∀ c, plain c → ' ' ≤ c) (c : Char) :
    (∃ e, literalChar plain c = ['\\', e] ∧ escaped? e = some c) ∨
      (literalChar plain c = [c] ∧ c ≠ '"' ∧ c ≠ '\\' ∧ ' ' ≤ c) ∨
      literalChar plain c = (units16 c).flatMap unitEscape := by
  fun_cases literalChar plain c with
  | case3 hquote hbackslash hc => exact .inr (.inl ⟨rfl, hquote, hbackslash, hplain c hc⟩)
  | case9 => exact .inr (.inr rfl)
  | case1 | case2 | case4 | case5 | case6 | case7 | case8 =>
    subst c
    exact .inl ⟨_, rfl, rfl⟩

/-- An escape by a letter gives its character. -/
theorem escapedChar_letter {opened : Nat} {e c : Char} (h : escaped? e = some c)
    (tail : List Char) : Gives (escapedChar opened (e :: tail)) c tail := by
  have hunit : e ≠ 'u' := by
    rintro rfl
    cases h
  rw [escapedChar]
  · simp only [h]
    exact ⟨_, rfl, rfl, rfl⟩
  · exact fun he => hunit he

/-- A string goes on behind an escape. -/
theorem stringFrom_escape {opened : Nat} {escape tail text rest : List Char} {c : Char}
    (hc : Gives (escapedChar opened escape) c tail)
    (h : Gives (stringFrom opened tail) text rest) :
    Gives (stringFrom opened ('\\' :: escape)) (c :: text) rest := by
  obtain ⟨first, hfirst, rfl, rfl⟩ := hc
  obtain ⟨more, hmore, rfl, rfl⟩ := h
  rw [stringFrom, if_neg (by decide), if_pos rfl, hfirst]
  simp only [hmore]
  exact ⟨_, rfl, rfl, rfl⟩

/-- A string goes on behind a character that stands for itself. -/
theorem stringFrom_plain {opened : Nat} {tail text rest : List Char} {c : Char}
    (hquote : c ≠ '"') (hbackslash : c ≠ '\\') (hc : ' ' ≤ c)
    (h : Gives (stringFrom opened tail) text rest) :
    Gives (stringFrom opened (c :: tail)) (c :: text) rest := by
  obtain ⟨more, hmore, rfl, rfl⟩ := h
  rw [stringFrom, if_neg hquote, if_neg hbackslash, if_neg (Char.not_lt.2 hc), hmore]
  exact ⟨_, rfl, rfl, rfl⟩

/-! ## Literals -/

/-- A text that is one value. -/
theorem read_of_value {text : List Char} {v : Value} (hmark : text.head? ≠ some '\uFEFF')
    (h : Gives (value (skipBlanks text)) v []) : read text = .ok v := by
  obtain ⟨r, hr, rfl, hrest⟩ := h
  rw [read, if_neg hmark, hr]
  simp only [hrest]
  exact if_pos rfl

section Literals

variable {plain : Char → Bool} (hplain : ∀ c, plain c → ' ' ≤ c)
include hplain

/-- **The characters of a literal are read back**, in front of its closing quote. -/
theorem stringFrom_literalChars (opened : Nat) (text rest : List Char) :
    Gives (stringFrom opened (text.flatMap (literalChar plain) ++ '"' :: rest)) text rest := by
  induction text with
  | nil =>
    rw [List.flatMap_nil, List.nil_append, stringFrom, if_pos rfl]
    exact ⟨_, rfl, rfl, rfl⟩
  | cons c text ih =>
    rw [List.flatMap_cons, List.append_assoc]
    obtain ⟨e, he, hletter⟩ | ⟨hc, hquote, hbackslash, hspace⟩ | hunits :=
      literalChar_cases hplain c
    · rw [he]
      exact stringFrom_escape (escapedChar_letter hletter _) ih
    · rw [hc]
      exact stringFrom_plain hquote hbackslash hspace ih
    · have hmore : text.flatMap (literalChar plain) ++ '"' :: rest ≠ [] := by simp
      obtain ⟨escape, hescape, hread⟩ := escapedChar_units16 opened c hmore
      rw [hunits, hescape]
      exact stringFrom_escape hread ih

/-- **A literal is a JSON string that stands for the text it was made of.** -/
theorem read_literalWith (text : String) :
    read (literalWith plain text).toList = .ok (.string text) := by
  rw [literalWith, String.toList_ofList]
  refine read_of_value (by simp) ?_
  have hblank : skipBlanks ('"' :: (text.toList.flatMap (literalChar plain) ++ ['"'])) =
      '"' :: (text.toList.flatMap (literalChar plain) ++ ['"']) := rfl
  obtain ⟨r, hr, hvalue, hrest⟩ := stringFrom_literalChars hplain
    ((text.toList.flatMap (literalChar plain) ++ ['"']).length + 1) text.toList []
  rw [hblank, value, string, hr]
  refine ⟨_, rfl, ?_, hrest⟩
  rw [Parsed.value_later, Parsed.value_map, Parsed.value_map, hvalue, String.ofList_toList]

end Literals

/-- The two kinds of literals, those with all characters from the space on and those in ASCII. -/
theorem read_literal (text : String) : read (Text.literal text).toList = .ok (.string text) :=
  read_literalWith (fun _ => of_decide_eq_true) text

/-- A literal with escapes for all but printable ASCII is read as the text it was written for. -/
theorem read_asciiLiteral (text : String) :
    read (Text.asciiLiteral text).toList = .ok (.string text) :=
  read_literalWith (fun _ h => of_decide_eq_true (Bool.and_eq_true_iff.1 h).1) text

end Json
end Ferrotype

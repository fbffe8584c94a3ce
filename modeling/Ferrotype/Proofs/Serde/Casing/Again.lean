/-
# Changing the casing of a name again

A name that a policy has put together from words can be cut into the same words again, up to case,
if every word has at least two characters, small letters first and digits behind them
(`words_ofWords`): each of the six policies that cut names leaves a mark at the start of every word
but the first, and none inside a word. A single letter would not do, as `AB` in Pascal case may be
one word or two.

So it does not matter through which policies such a name has come: `apply_apply`.
-/

import Ferrotype.Proofs.Serde.Casing

namespace Ferrotype
namespace Serde

/-- Whether a word is made of small letters, at least one, with digits behind them, and has two
characters or more. -/
def isNumbered (w : List Char) : Bool :=
  decide (2 ≤ w.length) && w.head?.any Char.isLower && (w.dropWhile Char.isLower).all Char.isDigit

example : isNumbered "user".toList = true ∧ isNumbered "v2".toList = true ∧
    isNumbered "x".toList = false ∧ isNumbered "42".toList = false := by decide

/-- A numbered word starts with a letter, and letters and digits follow. -/
theorem exists_of_isNumbered {w : List Char} (h : isNumbered w) :
    ∃ c letters digits, w = c :: (letters ++ digits) ∧ c.isLower ∧ letters ++ digits ≠ [] ∧
      (∀ d ∈ letters, d.isLower) ∧ ∀ d ∈ digits, d.isDigit := by
  rw [isNumbered, Bool.and_eq_true, Bool.and_eq_true, decide_eq_true_eq, List.all_eq_true] at h
  obtain ⟨⟨hlength, hhead⟩, hdigits⟩ := h
  cases w with
  | nil => cases hhead
  | cons c cs =>
    have hc : c.isLower := hhead
    rw [List.dropWhile_cons_of_pos hc] at hdigits
    refine ⟨c, cs.takeWhile Char.isLower, cs.dropWhile Char.isLower, ?_, hc, ?_,
      fun d hd => List.mem_takeWhile_imp hd, hdigits⟩
    · rw [List.takeWhile_append_dropWhile]
    · rw [List.takeWhile_append_dropWhile]
      rintro rfl
      simp at hlength

section Word

variable {w : List Char} (h : isNumbered w)
include h

/-- The characters of a numbered word are small. -/
theorem isSmall_of_isNumbered : ∀ c ∈ w, isSmall c := by
  obtain ⟨c, letters, digits, rfl, hc, -, hletters, hdigits⟩ := exists_of_isNumbered h
  intro d hd
  rw [isSmall, Bool.or_eq_true]
  rcases List.mem_cons.1 hd with rfl | hd
  · exact .inl hc
  · exact (List.mem_append.1 hd).imp (hletters d) (hdigits d)

/-- A numbered word is one word. -/
theorem words_of_isNumbered : words w = [w] := by
  refine words_of_small ?_ (isSmall_of_isNumbered h)
  rintro rfl
  cases h

/-- With a capital at its start, the word has no other one. -/
theorem isHump_capitalize :
    isHump (Unicode.capitalize w) ∧ Unicode.lower (Unicode.capitalize w) = w := by
  have hsmall := isSmall_of_isNumbered h
  obtain ⟨c, letters, digits, rfl, hc, hne, -, -⟩ := exists_of_isNumbered h
  obtain ⟨hcsmall, hcs⟩ := List.forall_mem_cons.1 hsmall
  have hupper : c.toUpper.isUpper := by
    rw [Char.isUpper_toUpper_eq_isAlpha, Char.isAlpha, hc, Bool.or_true]
  rw [Unicode.capitalize_cons (Unicode.toNat_lt_of_isAlphanum (isAlphanum_of_isSmall hcsmall))]
  refine ⟨isHump_cons hupper hne hcs, ?_⟩
  rw [lower_of_isUpper hupper hcs, Char.toLower_toUpper_eq_toLower, toLower_of_isSmall hcsmall]

/-- In upper case it is one word, too. -/
theorem words_upper : words (w.map Char.toUpper) = [w.map Char.toUpper] := by
  obtain ⟨c, letters, digits, rfl, hc, -, hletters, hdigits⟩ := exists_of_isNumbered h
  have hupper {d : Char} (hd : d.isLower) : d.toUpper.isUpper := by
    rw [Char.isUpper_toUpper_eq_isAlpha, Char.isAlpha, hd, Bool.or_true]
  have hself : digits.map Char.toUpper = digits := by
    refine (List.map_congr_left fun d hd => ?_).trans (List.map_id digits)
    exact Char.toUpper_eq_of_not_isLower (Bool.eq_false_iff.1 (isLower_of_isDigit (hdigits d hd)))
  have hcapitals : ∀ d ∈ letters.map Char.toUpper, d.isUpper := by
    intro d' hd'
    obtain ⟨d, hd, rfl⟩ := List.mem_map.1 hd'
    exact hupper (hletters d hd)
  rw [List.map_cons, List.map_append, hself]
  exact words_of_capitals (hupper hc) hcapitals hdigits

end Word

section Words

variable {ws : List (List Char)} (h : ∀ w ∈ ws, isNumbered w)
include h

/-- The same of all words. -/
theorem areSmall_of_isNumbered : AreSmall ws := fun w hw => isSmall_of_isNumbered (h w hw)

/-- Numbered words are humps once they have a capital. -/
theorem isHump_map_capitalize : ∀ w ∈ ws.map Unicode.capitalize, isHump w := by
  intro w' hw'
  obtain ⟨w, hw, rfl⟩ := List.mem_map.1 hw'
  exact (isHump_capitalize (h w hw)).1

/-- In small letters they are what they were. -/
theorem map_lower_capitalize : (ws.map Unicode.capitalize).map Unicode.lower = ws := by
  rw [List.map_map]
  exact (List.map_congr_left fun w hw => (isHump_capitalize (h w hw)).2).trans (List.map_id ws)

/-- Behind a separator every word is read as it is written. -/
theorem words_joinWith_of_isNumbered {sep : Char} (hsep : isSeparator sep) :
    words (joinWith sep ws) = ws := by
  rw [words_joinWith hsep, List.flatMap_congr fun w hw => words_of_isNumbered (h w hw),
    List.flatMap_singleton']

/-- Words in capitals with separators between them are found again. -/
theorem words_joinWith_upper {sep : Char} (hsep : isSeparator sep) (hascii : sep.toNat < 128)
    (hself : sep.toUpper = sep) :
    (words (Unicode.upper (joinWith sep ws))).map Unicode.lower = ws := by
  rw [Unicode.upper_eq_map (isAscii_joinWith hascii (areSmall_of_isNumbered h)), map_joinWith,
    hself, words_joinWith hsep, List.flatMap_map,
    List.flatMap_congr fun w hw => words_upper (h w hw), List.map_flatMap]
  have hword : ∀ w ∈ ws, [w.map Char.toUpper].map Unicode.lower = [w] := fun w hw =>
    congrArg ([·]) (lower_map_toUpper (isSmall_of_isNumbered (h w hw)))
  rw [List.flatMap_congr hword, List.flatMap_singleton']

namespace Casing

/-- **What a policy has put together is cut into the same words again.** -/
theorem words_ofWords {p : Casing} (hp : p.cuts) :
    (words (p.ofWords ws)).map Unicode.lower = ws := by
  have hsmall := map_lower_of_areSmall (areSmall_of_isNumbered h)
  cases p with
  | lower | upper => cases hp
  | pascal =>
    rw [ofWords, List.flatMap_def, words_humps (isHump_map_capitalize h), map_lower_capitalize h]
  | camel =>
    cases ws with
    | nil => rfl
    | cons w ws =>
      obtain ⟨hw, hws⟩ := List.forall_mem_cons.1 h
      have hwsmall := isSmall_of_isNumbered hw
      obtain ⟨c, letters, digits, hword, -, hne, -, -⟩ := exists_of_isNumbered hw
      rw [hword] at hwsmall
      obtain ⟨hc, hcs⟩ := List.forall_mem_cons.1 hwsmall
      rw [ofWords, hword, List.flatMap_def, words_append_humps (isAlphanum_of_isSmall hc) hne hcs
        (isHump_map_capitalize hws), ← hword, List.map_cons, map_lower_capitalize hws]
      rw [List.map_cons] at hsmall
      rw [(List.cons.inj hsmall).1]
  | snake => rw [ofWords, words_joinWith_of_isNumbered h (by decide), hsmall]
  | screamingSnake => exact words_joinWith_upper h (by decide) (by decide) (by decide)
  | kebab => rw [ofWords, words_joinWith_of_isNumbered h (by decide), hsmall]
  | screamingKebab => exact words_joinWith_upper h (by decide) (by decide) (by decide)

/-- So another policy can put them together in its own way. -/
theorem applyChars_ofWords (hne : ws ≠ []) {p q : Casing} (hp : p.cuts) (hq : q.cuts) :
    q.applyChars (p.ofWords ws) = q.ofWords ws := by
  have hwords := words_ofWords h hp
  have hsome : words (p.ofWords ws) ≠ [] := by
    intro hnil
    rw [hnil] at hwords
    exact hne hwords.symm
  rw [applyChars_of_words hq rfl hsome, hwords]

end Casing
end Words

namespace Casing

/-- **It does not matter how a name was written before.** The words of a name are those it was made
of, up to case, under every policy that cuts names. So a second policy gives what it gives for the
first name, the same policy changes nothing when it is applied again, and the first name comes back
from each of them. -/
theorem apply_apply {ws : List (List Char)} (hne : ws ≠ []) (h : ∀ w ∈ ws, isNumbered w)
    {p q : Casing} (hp : p.cuts) (hq : q.cuts) :
    let name := String.ofList (joinWith '_' ws)
    (words (p.apply name).toList).map Unicode.lower = ws ∧
      q.apply (p.apply name) = q.apply name ∧
      p.apply (p.apply name) = p.apply name ∧
      snake.apply (p.apply name) = name := by
  intro name
  have hfirst {r : Casing} (hr : r.cuts) : r.apply name = String.ofList (r.ofWords ws) := by
    have hsnake : r.applyChars (joinWith '_' ws) = r.ofWords ws :=
      applyChars_ofWords h hne (p := snake) rfl hr
    rw [apply, String.toList_ofList, hsnake]
  have hagain {r : Casing} (hr : r.cuts) :
      r.apply (p.apply name) = String.ofList (r.ofWords ws) := by
    rw [hfirst hp, apply, String.toList_ofList, applyChars_ofWords h hne hp hr]
  refine ⟨?_, ?_, ?_, hagain rfl⟩
  · rw [hfirst hp, String.toList_ofList, words_ofWords h hp]
  · rw [hagain hq, hfirst hq]
  · rw [hagain hp, hfirst hp]

/-- A name of a letter with a digit behind it and a longer word. -/
theorem apply_apply_v2_page :
    let name := String.ofList (joinWith '_' ["v2".toList, "page".toList])
    (∀ w ∈ ["v2".toList, "page".toList], isNumbered w) ∧
      pascal.apply name = "V2Page" ∧ screamingKebab.apply (pascal.apply name) = "V2-PAGE" ∧
      snake.apply (pascal.apply name) = "v2_page" := by
  intro name
  have hwords : ∀ w ∈ ["v2".toList, "page".toList], isNumbered w := by decide
  obtain ⟨-, hagain, -, hback⟩ :=
    apply_apply (List.cons_ne_nil _ _) hwords (p := pascal) (q := screamingKebab) rfl rfl
  refine ⟨hwords, by decide +kernel, hagain.trans (by decide +kernel), hback⟩

end Casing
end Serde
end Ferrotype

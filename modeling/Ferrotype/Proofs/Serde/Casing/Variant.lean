/-
# Policies on the names of variants

Serde changes the name of a variant character by character and looks for its capitals
(`variantRule`); the translator cuts it into words and puts them together again. Where every capital
of a name has a small letter or a digit behind it, words start exactly at the capitals, and both
come to the same (`apply_variant`).
-/

import Ferrotype.Proofs.Serde.Casing

namespace Ferrotype
namespace Serde

/-! ## The rule by characters -/

/-- A character in lower case, behind an underscore if it is a capital. -/
def underscored (c : Char) : List Char := if c.isUpper then ['_', c.toLower] else [c.toLower]

/-- The name of a variant in lower case, with an underscore before every capital but the first
character. -/
def withUnderscores : List Char → List Char
  | [] => []
  | c :: cs => c.toLower :: cs.flatMap underscored

/-- The name of a variant under a policy. -/
def Casing.variantRule : Casing → List Char → List Char
  | lower, cs => cs.map Char.toLower
  | upper, cs => cs.map Char.toUpper
  | pascal, cs => cs
  | camel, cs => lowerFirst cs
  | snake, cs => withUnderscores cs
  | screamingSnake, cs => (withUnderscores cs).map Char.toUpper
  | kebab, cs => (withUnderscores cs).map dashed
  | screamingKebab, cs => ((withUnderscores cs).map Char.toUpper).map dashed

example : Casing.variantRule .screamingKebab "NonFiction".toList = "NON-FICTION".toList := by decide

/-! ## Words with a capital -/

/-- A capital is small in small letters. -/
theorem isSmall_toLower {c : Char} (hc : c.isUpper) : isSmall c.toLower := by
  rw [isSmall, Char.isLower_toLower_eq_isAlpha, Char.isAlpha, hc]
  rfl

/-- A capital is found again. -/
theorem toUpper_toLower {c : Char} (hc : c.isUpper) : c.toLower.toUpper = c := by
  rw [Char.toUpper_toLower_eq_toUpper,
    Char.toUpper_eq_of_not_isLower (Char.not_isLower_of_isUpper hc)]

/-- What is small needs no underscore in front. -/
theorem flatMap_underscored {cs : List Char} (h : ∀ c ∈ cs, isSmall c) :
    cs.flatMap underscored = cs := by
  have hchar : ∀ c ∈ cs, underscored c = [c] := fun c hc => by
    rw [underscored, isUpper_of_isSmall (h c hc), if_neg Bool.false_ne_true,
      toLower_of_isSmall (h c hc)]
  rw [List.flatMap_congr hchar, List.flatMap_singleton']

section Humps

variable {ws : List (List Char)} (h : ∀ w ∈ ws, isHump w)
include h

/-- Words are small in small letters. -/
theorem areSmall_lower : AreSmall (ws.map Unicode.lower) := by
  intro w' hw' c' hc'
  obtain ⟨w, hw, rfl⟩ := List.mem_map.1 hw'
  obtain ⟨c, cs, rfl, hc, -, hcs⟩ := exists_of_isHump (h w hw)
  rw [lower_of_isUpper hc hcs] at hc'
  rcases List.mem_cons.1 hc' with rfl | hc'
  · exact isSmall_toLower hc
  · exact hcs c' hc'

/-- The capitals come back. -/
theorem flatMap_capitalize_lower :
    (ws.map Unicode.lower).flatMap Unicode.capitalize = ws.flatten := by
  rw [List.flatMap_map, List.flatMap_def]
  refine congrArg List.flatten ((List.map_congr_left fun w hw => ?_).trans (List.map_id ws))
  obtain ⟨c, cs, rfl, hc, -, hcs⟩ := exists_of_isHump (h w hw)
  rw [lower_of_isUpper hc hcs, Unicode.capitalize_cons, toUpper_toLower hc]
  · rfl
  · exact Unicode.toNat_lt_of_isAlphanum (isAlphanum_of_isSmall (isSmall_toLower hc))

/-- So does the underscore before each but the first. -/
theorem joinWith_lower : joinWith '_' (ws.map Unicode.lower) = withUnderscores ws.flatten := by
  cases ws with
  | nil => rfl
  | cons w ws =>
    obtain ⟨hw, hws⟩ := List.forall_mem_cons.1 h
    obtain ⟨c, cs, rfl, hc, -, hcs⟩ := exists_of_isHump hw
    rw [List.map_cons, joinWith_cons, lower_of_isUpper hc hcs, List.flatten_cons, List.cons_append,
      List.cons_append, withUnderscores, List.flatMap_append, flatMap_underscored hcs,
      List.flatMap_map, List.flatten_eq_flatMap, List.flatMap_assoc]
    congr 2
    refine List.flatMap_congr fun w hw => ?_
    obtain ⟨c, cs, rfl, hc, -, hcs⟩ := exists_of_isHump (hws w hw)
    rw [lower_of_isUpper hc hcs, id, List.flatMap_cons, flatMap_underscored hcs, underscored,
      if_pos hc]
    rfl

end Humps

namespace Casing

/-- **On the names of variants, policies do what serde does**, if every capital of the name has a
small letter or a digit behind it. -/
theorem apply_variant {ws : List (List Char)} (h : ∀ w ∈ ws, isHump w) (p : Casing) :
    p.apply (String.ofList ws.flatten) = String.ofList (p.variantRule ws.flatten) := by
  rw [apply, String.toList_ofList]
  congr 1
  have hascii : Unicode.IsAscii ws.flatten := by
    intro c hc
    obtain ⟨w, hw, hmem⟩ := List.mem_flatten.1 hc
    exact Unicode.toNat_lt_of_isAlphanum (isAlphanum_of_isHump (h w hw) c hmem)
  cases ws with
  | nil => cases p <;> rfl
  | cons w ws =>
    have hwords := words_humps h
    have hsmall := areSmall_lower h
    have hcut {p : Casing} (hp : p.cuts) : p.applyChars (w :: ws).flatten =
        p.ofWords ((w :: ws).map Unicode.lower) :=
      applyChars_of_words hp hwords (List.cons_ne_nil _ _)
    have hsnake : snake.ofWords ((w :: ws).map Unicode.lower) = withUnderscores (w :: ws).flatten :=
      joinWith_lower h
    cases p with
    | lower => exact Unicode.lower_eq_map hascii
    | upper => exact Unicode.upper_eq_map hascii
    | pascal => exact (hcut rfl).trans (flatMap_capitalize_lower h)
    | camel =>
      obtain ⟨hw, hws⟩ := List.forall_mem_cons.1 h
      obtain ⟨c, cs, rfl, hc, -, hcs⟩ := exists_of_isHump hw
      rw [hcut rfl, List.map_cons, ofWords, flatMap_capitalize_lower hws, lower_of_isUpper hc hcs]
      rfl
    | snake => rw [hcut rfl, hsnake, variantRule]
    | screamingSnake => rw [hcut rfl, ofWords_screamingSnake hsmall, hsnake, variantRule]
    | kebab => rw [hcut rfl, ofWords_kebab hsmall, hsnake, variantRule]
    | screamingKebab => rw [hcut rfl, ofWords_screamingKebab hsmall, hsnake, variantRule]

/-- The words of a name with digits in it. -/
theorem apply_variant_http2_server :
    (∀ w ∈ ["Http2".toList, "Server".toList], isHump w) ∧
      pascal.apply "Http2Server" = "Http2Server" ∧ camel.apply "Http2Server" = "http2Server" ∧
      screamingKebab.apply "Http2Server" = "HTTP2-SERVER" := by
  have hwords : ∀ w ∈ ["Http2".toList, "Server".toList], isHump w := by decide
  have hname : String.ofList ["Http2".toList, "Server".toList].flatten = "Http2Server" := by decide
  have hrule (p : Casing) := apply_variant hwords p
  rw [hname] at hrule
  exact ⟨hwords, (hrule pascal).trans (by decide), (hrule camel).trans (by decide),
    (hrule screamingKebab).trans (by decide)⟩

end Casing
end Serde
end Ferrotype

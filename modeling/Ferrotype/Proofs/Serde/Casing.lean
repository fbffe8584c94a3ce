/-
# Policies on words of small letters

A policy that cuts a name into words puts them together again in lower case (`applyChars_of_words`).
On words of small letters and digits, the policies that write separators differ in single
characters: the screaming ones write capitals for the small letters, and the dashed ones a dash for
each underscore. The two policies without separators differ in the first character.
-/

import Ferrotype.Proofs.Serde.Words

namespace Ferrotype
namespace Serde

/-- The first character in lower case. -/
def lowerFirst : List Char → List Char
  | [] => []
  | c :: cs => c.toLower :: cs

/-- A dash for an underscore. -/
def dashed (c : Char) : Char := if c = '_' then '-' else c

namespace Casing

/-! ## Kinds of policies -/

/-- Whether a policy cuts names into words. -/
def cuts : Casing → Bool
  | lower | upper => false
  | _ => true

/-- Whether a policy writes separators between words. -/
def separates : Casing → Bool
  | lower | upper | pascal | camel => false
  | _ => true

/-- A name with words is made of them again. -/
theorem applyChars_of_words {p : Casing} (hp : p.cuts) {name : List Char} {ws : List (List Char)}
    (hwords : words name = ws) (hne : ws ≠ []) :
    p.applyChars name = p.ofWords (ws.map Unicode.lower) := by
  subst hwords
  have hsome : (words name).isEmpty = false := by simpa using hne
  cases p with
  | lower | upper => cases hp
  | _ => simp only [applyChars, hsome, Bool.false_eq_true, if_false]

end Casing

/-! ## Small words -/

/-- Whether words are made of small letters and digits. -/
def AreSmall (ws : List (List Char)) : Prop := ∀ w ∈ ws, ∀ c ∈ w, isSmall c

/-- What is small is in ASCII. -/
theorem isAscii_of_isSmall {cs : List Char} (h : ∀ c ∈ cs, isSmall c) : Unicode.IsAscii cs :=
  fun c hc => Unicode.toNat_lt_of_isAlphanum (isAlphanum_of_isSmall (h c hc))

/-- Small words with a separator of ASCII between them are in ASCII. -/
theorem isAscii_joinWith {sep : Char} (hsep : sep.toNat < 128) {ws : List (List Char)}
    (h : AreSmall ws) : Unicode.IsAscii (joinWith sep ws) := by
  intro c hc
  cases ws with
  | nil => cases hc
  | cons w ws =>
    rw [joinWith_cons] at hc
    simp only [List.mem_append, List.mem_flatMap, List.mem_cons] at hc
    rcases hc with hc | ⟨w', hw', rfl | hc⟩
    · exact isAscii_of_isSmall (h w List.mem_cons_self) c hc
    · exact hsep
    · exact isAscii_of_isSmall (h w' (List.mem_cons_of_mem _ hw')) c hc

/-- Small words stay as they are in small letters. -/
theorem map_lower_of_areSmall {ws : List (List Char)} (h : AreSmall ws) :
    ws.map Unicode.lower = ws := by
  refine (List.map_congr_left fun w hw => ?_).trans (List.map_id ws)
  rw [Unicode.lower_eq_map (isAscii_of_isSmall (h w hw))]
  exact (List.map_congr_left fun c hc => toLower_of_isSmall (h w hw c hc)).trans (List.map_id w)

/-- A word in upper case comes back in lower case. -/
theorem lower_map_toUpper {cs : List Char} (h : ∀ c ∈ cs, isSmall c) :
    Unicode.lower (cs.map Char.toUpper) = cs := by
  have hascii : Unicode.IsAscii (cs.map Char.toUpper) := by
    intro c' hc'
    obtain ⟨c, hc, rfl⟩ := List.mem_map.1 hc'
    exact Unicode.toNat_lt_of_isAlphanum (isAlphanum_toUpper (h c hc))
  rw [Unicode.lower_eq_map hascii, List.map_map]
  refine (List.map_congr_left fun c hc => ?_).trans (List.map_id cs)
  exact (Char.toLower_toUpper_eq_toLower c).trans (toLower_of_isSmall (h c hc))

/-- A capital at the start of a word is all that lower case changes. -/
theorem lower_of_isUpper {c : Char} (hc : c.isUpper) {cs : List Char} (hcs : ∀ d ∈ cs, isSmall d) :
    Unicode.lower (c :: cs) = c.toLower :: cs := by
  have hascii : Unicode.IsAscii (c :: cs) := List.forall_mem_cons.2
    ⟨Unicode.toNat_lt_of_isAlphanum (isAlphanum_of_isUpper hc), isAscii_of_isSmall hcs⟩
  have hsmall : cs.map Char.toLower = cs :=
    (List.map_congr_left fun d hd => toLower_of_isSmall (hcs d hd)).trans (List.map_id cs)
  rw [Unicode.lower_eq_map hascii, List.map_cons, hsmall]

/-- Small letters and digits are no underscores, in upper case neither. -/
theorem dashed_of_isSmall {c : Char} (h : isSmall c) :
    dashed c = c ∧ dashed c.toUpper = c.toUpper := by
  have hne : c ≠ '_' := by
    rintro rfl
    exact absurd h (by decide)
  refine ⟨if_neg hne, if_neg fun hupper => hne ?_⟩
  rw [← toLower_of_isSmall h, ← Char.toLower_toUpper_eq_toLower, hupper]
  decide

/-- Words without underscores are joined by dashes where they were by underscores. -/
theorem map_dashed_joinWith {ws : List (List Char)} (h : ∀ w ∈ ws, ∀ c ∈ w, dashed c = c) :
    (joinWith '_' ws).map dashed = joinWith '-' ws := by
  have hwords : ws.map (List.map dashed) = ws := by
    refine (List.map_congr_left fun w hw => ?_).trans (List.map_id ws)
    exact (List.map_congr_left (h w hw)).trans (List.map_id w)
  rw [map_joinWith, hwords]
  rfl

namespace Casing

section Separators

variable {ws : List (List Char)} (h : AreSmall ws)
include h

/-- The first word decides between `camelCase` and `PascalCase`, if there is none that is empty. -/
theorem ofWords_camel (hne : [] ∉ ws) :
    camel.ofWords ws = lowerFirst (pascal.ofWords ws) := by
  cases ws with
  | nil => rfl
  | cons w ws =>
    cases w with
    | nil => exact absurd List.mem_cons_self hne
    | cons c cs =>
      have hc := h (c :: cs) List.mem_cons_self c List.mem_cons_self
      have hascii := Unicode.toNat_lt_of_isAlphanum (isAlphanum_of_isSmall hc)
      rw [ofWords, ofWords, List.flatMap_cons, Unicode.capitalize_cons hascii, List.cons_append,
        List.cons_append, lowerFirst, Char.toLower_toUpper_eq_toLower, toLower_of_isSmall hc]

/-- The policy in capitals is that in small letters, in capitals. -/
theorem ofWords_screamingSnake : screamingSnake.ofWords ws = (snake.ofWords ws).map Char.toUpper :=
  Unicode.upper_eq_map (isAscii_joinWith (by decide) h)

/-- The policy with dashes is that with underscores, with dashes for them. -/
theorem ofWords_kebab : kebab.ofWords ws = (snake.ofWords ws).map dashed :=
  (map_dashed_joinWith fun w hw c hc => (dashed_of_isSmall (h w hw c hc)).1).symm

/-- The policy with dashes in capitals is that with underscores, changed twice. -/
theorem ofWords_screamingKebab :
    screamingKebab.ofWords ws = ((snake.ofWords ws).map Char.toUpper).map dashed := by
  have hupper : ∀ w ∈ ws.map (List.map Char.toUpper), ∀ c ∈ w, dashed c = c := by
    intro w' hw' c' hc'
    obtain ⟨w, hw, rfl⟩ := List.mem_map.1 hw'
    obtain ⟨c, hc, rfl⟩ := List.mem_map.1 hc'
    exact (dashed_of_isSmall (h w hw c hc)).2
  have hdash : '-'.toUpper = '-' := by decide
  have hunderscore : '_'.toUpper = '_' := by decide
  rw [ofWords, ofWords, Unicode.upper_eq_map (isAscii_joinWith (by decide) h), map_joinWith,
    map_joinWith, hdash, hunderscore, map_dashed_joinWith hupper]

end Separators
end Casing

end Serde
end Ferrotype

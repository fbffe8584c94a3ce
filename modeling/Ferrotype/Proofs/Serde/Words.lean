/-
# How a name is cut into words

Separators cut a name into parts, and the words of the name are those of its parts one after the
other (`words_append_separator`). Inside a part a word starts at a capital behind a small letter or
a digit, so nothing is cut where there is no capital (`chunkWords_small`), and a part made of words
that start with a capital and go on without one is cut into these (`words_humps`). A part of
capitals with digits behind them is one word (`words_of_capitals`).
-/

import Ferrotype.Proofs.Unicode.Ascii
import Ferrotype.Proofs.Unicode.Word
import Ferrotype.Serde.Casing
import Mathlib

namespace Ferrotype
namespace Serde

/-! ## Characters -/

/-- Whether a character goes on with a word that has started: a small letter or a digit. -/
def isSmall (c : Char) : Bool := c.isLower || c.isDigit

/-- Small letters and digits are letters or digits. -/
theorem isAlphanum_of_isSmall {c : Char} (h : isSmall c) : c.isAlphanum := by
  rw [isSmall, Bool.or_eq_true] at h
  rcases h with h | h <;> simp [Char.isAlphanum, Char.isAlpha, h]

/-- Capitals are letters. -/
theorem isAlphanum_of_isUpper {c : Char} (h : c.isUpper) : c.isAlphanum := by
  simp [Char.isAlphanum, Char.isAlpha, h]

/-- No digit is a capital. -/
theorem isUpper_of_isDigit {c : Char} (h : c.isDigit) : c.isUpper = false := by
  rw [Bool.eq_false_iff]
  intro hupper
  have halpha : c.isAlpha := by simp [Char.isAlpha, hupper]
  rw [Unicode.isDigit_of_isAlpha halpha] at h
  cases h

/-- No digit is a small letter. -/
theorem isLower_of_isDigit {c : Char} (h : c.isDigit) : c.isLower = false := by
  rw [Bool.eq_false_iff]
  intro hlower
  have halpha : c.isAlpha := by simp [Char.isAlpha, hlower]
  rw [Unicode.isDigit_of_isAlpha halpha] at h
  cases h

/-- What is small is no capital. -/
theorem isUpper_of_isSmall {c : Char} (h : isSmall c) : c.isUpper = false := by
  rw [isSmall, Bool.or_eq_true] at h
  rcases h with h | h
  · exact Bool.eq_false_iff.2 (Char.not_isUpper_of_isLower h)
  · exact isUpper_of_isDigit h

/-- What is a capital is not small. -/
theorem isSmall_of_isUpper {c : Char} (h : c.isUpper) : isSmall c = false := by
  rw [Bool.eq_false_iff]
  intro hsmall
  rw [isUpper_of_isSmall hsmall] at h
  cases h

/-- What is small stays as it is in small letters. -/
theorem toLower_of_isSmall {c : Char} (h : isSmall c) : c.toLower = c :=
  Char.toLower_eq_of_not_isUpper (Bool.eq_false_iff.1 (isUpper_of_isSmall h))

/-- What is small is a letter or a digit in capitals, too. -/
theorem isAlphanum_toUpper {c : Char} (h : isSmall c) : c.toUpper.isAlphanum := by
  rw [isSmall, Bool.or_eq_true] at h
  rcases h with h | h
  · simp [Char.isAlphanum, Char.isAlpha, h]
  · rw [Char.toUpper_eq_of_not_isLower (Bool.eq_false_iff.1 (isLower_of_isDigit h)),
      Char.isAlphanum, h, Bool.or_true]

/-- Letters and digits separate nothing. -/
theorem isSeparator_of_isAlphanum {c : Char} (h : c.isAlphanum) : isSeparator c = false := by
  have hne {sep : Char} (hsep : sep.isAlphanum = false) : (c == sep) = false := by
    rw [beq_eq_false_iff_ne]
    rintro rfl
    rw [h] at hsep
    cases hsep
  rw [isSeparator, hne (by decide), hne (by decide), Unicode.isBlank_of_isAlphanum h]
  rfl

/-! ## Parts between separators -/

/-- The chunks of a name are its parts between separators. The induction is on the name, with the
characters of the open chunk. -/
theorem chunks_eq_splitOnP (chunk cs : List Char) :
    chunks chunk cs = (cs.splitOnP isSeparator).modifyHead (chunk.reverse ++ ·) := by
  induction cs generalizing chunk with
  | nil => simp [chunks]
  | cons c cs ih =>
    rw [chunks, List.splitOnP_cons_eq_if_modifyHead]
    split
    · rw [List.modifyHead_cons, List.append_nil, ih []]
      congr 1
      cases cs.splitOnP isSeparator <;> rfl
    · rw [ih (c :: chunk), List.modifyHead_modifyHead]
      congr 1
      funext part
      simp

/-- The words of a name are those of its parts that are not empty. -/
theorem words_eq_splitOnP (name : List Char) :
    words name = ((name.splitOnP isSeparator).filter (!·.isEmpty)).flatMap (chunkWords []) := by
  rw [words, chunks_eq_splitOnP]
  congr 2
  cases name.splitOnP isSeparator <;> rfl

/-- **The words of a name are those of its parts**, in order. -/
theorem words_append_separator {sep : Char} (hsep : isSeparator sep) (xs ys : List Char) :
    words (xs ++ sep :: ys) = words xs ++ words ys := by
  simp only [words_eq_splitOnP, List.splitOnP_append_cons xs ys hsep, List.filter_append,
    List.flatMap_append]

/-- A text without separators is a single part. -/
theorem words_eq_chunkWords {cs : List Char} (hne : cs ≠ [])
    (h : ∀ c ∈ cs, isSeparator c = false) : words cs = chunkWords [] cs := by
  rw [words_eq_splitOnP, List.splitOnP_eq_singleton h]
  simp [hne]

/-! ## Words between separators -/

theorem joinWith_cons_cons (sep : Char) (w next : List Char) (ws : List (List Char)) :
    joinWith sep (w :: next :: ws) = w ++ sep :: joinWith sep (next :: ws) := rfl

/-- Behind the first word each other one has a separator in front. -/
theorem joinWith_cons (sep : Char) (w : List Char) (ws : List (List Char)) :
    joinWith sep (w :: ws) = w ++ ws.flatMap (sep :: ·) := by
  induction ws generalizing w with
  | nil => simp [joinWith]
  | cons next ws ih => rw [joinWith_cons_cons, ih, List.flatMap_cons, List.cons_append]

/-- A change of characters changes the words and the separators. -/
theorem map_joinWith (f : Char → Char) (sep : Char) (ws : List (List Char)) :
    (joinWith sep ws).map f = joinWith (f sep) (ws.map (List.map f)) := by
  cases ws with
  | nil => rfl
  | cons w ws =>
    rw [List.map_cons, joinWith_cons, joinWith_cons, List.map_append, List.map_flatMap,
      List.flatMap_map]
    rfl

/-- The words of texts with separators between them are those of the texts. -/
theorem words_joinWith {sep : Char} (hsep : isSeparator sep) (texts : List (List Char)) :
    words (joinWith sep texts) = texts.flatMap words := by
  induction texts with
  | nil => rfl
  | cons text texts ih =>
    cases texts with
    | nil => simp [joinWith]
    | cons next texts =>
      rw [joinWith_cons_cons, words_append_separator hsep, ih]
      rfl

/-! ## Words of a part -/

/-- Small letters and digits go on with a word. -/
theorem chunkWords_small {cs : List Char} (h : ∀ c ∈ cs, isSmall c) (word rest : List Char) :
    chunkWords word (cs ++ rest) = chunkWords (cs.reverse ++ word) rest := by
  induction cs generalizing word with
  | nil => rfl
  | cons c cs ih =>
    obtain ⟨hc, hcs⟩ := List.forall_mem_cons.1 h
    have hstep : chunkWords word (c :: (cs ++ rest)) = chunkWords (c :: word) (cs ++ rest) := by
      cases word with
      | nil => rw [chunkWords]
      | cons before word =>
        have hstart (after : Option Char) : startsWord before c after = false := by
          rw [startsWord, isUpper_of_isSmall hc]
          rfl
        rw [chunkWords, hstart, if_neg Bool.false_ne_true]
    rw [List.cons_append, hstep, ih hcs, List.reverse_cons, List.append_assoc]
    rfl

/-- A text of small letters and digits is one word. -/
theorem words_of_small {cs : List Char} (hne : cs ≠ []) (h : ∀ c ∈ cs, isSmall c) :
    words cs = [cs] := by
  have hseparator : ∀ c ∈ cs, isSeparator c = false :=
    fun c hc => isSeparator_of_isAlphanum (isAlphanum_of_isSmall (h c hc))
  have hparts := chunkWords_small h [] []
  rw [List.append_nil, List.append_nil] at hparts
  rw [words_eq_chunkWords hne hseparator, hparts, chunkWords, List.reverse_reverse]

/-- A capital behind a small letter or a digit starts a word. -/
theorem chunkWords_capital {before : Char} (hbefore : isSmall before) {c : Char} (hc : c.isUpper)
    (word rest : List Char) : chunkWords (before :: word) (c :: rest) =
      (before :: word).reverse :: chunkWords [c] rest := by
  have hstart : startsWord before c rest.head? := by
    rw [isSmall] at hbefore
    rw [startsWord, hc, hbefore]
    rfl
  rw [chunkWords, if_pos hstart]

/-- What goes on with a word ends in a small letter or a digit. -/
theorem exists_reverse_eq_cons {cs : List Char} (hne : cs ≠ []) (h : ∀ c ∈ cs, isSmall c) :
    ∃ last more, cs.reverse = last :: more ∧ isSmall last := by
  obtain ⟨last, more, hlast⟩ := List.exists_cons_of_ne_nil (List.reverse_ne_nil_iff.2 hne)
  exact ⟨last, more, hlast, h last (List.mem_reverse.1 (hlast ▸ List.mem_cons_self))⟩

/-- Whether a word has one capital, at its start, and goes on behind it. -/
def isHump : List Char → Bool
  | c :: d :: cs => c.isUpper && (d :: cs).all isSmall
  | _ => false

/-- A capital with small letters behind it is a hump. -/
theorem isHump_cons {c : Char} (hc : c.isUpper) {cs : List Char} (hne : cs ≠ [])
    (h : ∀ d ∈ cs, isSmall d) : isHump (c :: cs) := by
  cases cs with
  | nil => exact absurd rfl hne
  | cons d cs => rw [isHump, hc, List.all_eq_true.2 h, Bool.and_self]

/-- A hump is a capital with small letters behind it. -/
theorem exists_of_isHump {w : List Char} (h : isHump w) :
    ∃ c cs, w = c :: cs ∧ c.isUpper ∧ cs ≠ [] ∧ ∀ d ∈ cs, isSmall d := by
  match w, h with
  | c :: d :: cs, h =>
    rw [isHump, Bool.and_eq_true] at h
    exact ⟨c, d :: cs, rfl, h.1, List.cons_ne_nil _ _, List.all_eq_true.1 h.2⟩

/-- All characters of a hump are letters or digits. -/
theorem isAlphanum_of_isHump {w : List Char} (h : isHump w) : ∀ c ∈ w, c.isAlphanum := by
  obtain ⟨c, cs, rfl, hc, -, hcs⟩ := exists_of_isHump h
  exact List.forall_mem_cons.2
    ⟨isAlphanum_of_isUpper hc, fun d hd => isAlphanum_of_isSmall (hcs d hd)⟩

/-- Behind a small letter or a digit, each of these words is cut off. -/
theorem chunkWords_humps {before : Char} (hbefore : isSmall before) (word : List Char)
    {ws : List (List Char)} (h : ∀ w ∈ ws, isHump w) :
    chunkWords (before :: word) ws.flatten = (before :: word).reverse :: ws := by
  induction ws generalizing before word with
  | nil => rfl
  | cons w ws ih =>
    obtain ⟨hw, hws⟩ := List.forall_mem_cons.1 h
    obtain ⟨c, cs, rfl, hc, hne, hcs⟩ := exists_of_isHump hw
    -- The word ends in a character behind which the next one is cut off again.
    obtain ⟨last, more, hlast, hsmall⟩ := exists_reverse_eq_cons hne hcs
    have hword : (last :: (more ++ [c])).reverse = c :: cs := by
      rw [← List.cons_append, ← hlast]
      simp
    rw [List.flatten_cons, List.cons_append, chunkWords_capital hbefore hc, chunkWords_small hcs,
      hlast, List.cons_append, ih hsmall _ hws, hword]

/-- **Words that start with a capital are cut apart**, behind a first one of any case. -/
theorem words_append_humps {c : Char} (hc : c.isAlphanum) {cs : List Char} (hne : cs ≠ [])
    (hcs : ∀ d ∈ cs, isSmall d) {ws : List (List Char)} (h : ∀ w ∈ ws, isHump w) :
    words (c :: cs ++ ws.flatten) = (c :: cs) :: ws := by
  have hseparator : ∀ d ∈ c :: cs ++ ws.flatten, isSeparator d = false := by
    refine fun d hd => isSeparator_of_isAlphanum ?_
    rcases List.mem_append.1 hd with hd | hd
    · rcases List.mem_cons.1 hd with rfl | hd
      · exact hc
      · exact isAlphanum_of_isSmall (hcs d hd)
    · obtain ⟨w, hw, hmem⟩ := List.mem_flatten.1 hd
      exact isAlphanum_of_isHump (h w hw) d hmem
  obtain ⟨last, more, hlast, hsmall⟩ := exists_reverse_eq_cons hne hcs
  have hword : (last :: (more ++ [c])).reverse = c :: cs := by
    rw [← List.cons_append, ← hlast]
    simp
  rw [words_eq_chunkWords (by simp) hseparator, List.cons_append, chunkWords, chunkWords_small hcs,
    hlast, List.cons_append, chunkWords_humps hsmall _ h, hword]

/-- Humps are told apart without separators. The induction is on them. -/
theorem words_humps {ws : List (List Char)} (h : ∀ w ∈ ws, isHump w) : words ws.flatten = ws := by
  cases ws with
  | nil => rfl
  | cons w ws =>
    obtain ⟨hw, hws⟩ := List.forall_mem_cons.1 h
    obtain ⟨c, cs, rfl, hc, hne, hcs⟩ := exists_of_isHump hw
    exact words_append_humps (isAlphanum_of_isUpper hc) hne hcs hws

/-- Capitals do not cut each other off unless a small letter follows. -/
theorem chunkWords_capitals {before : Char} (hbefore : before.isUpper) {capitals : List Char}
    (h : ∀ c ∈ capitals, c.isUpper) {digits : List Char} (hdigits : ∀ d ∈ digits, d.isDigit)
    (word : List Char) : chunkWords (before :: word) (capitals ++ digits) =
      [(before :: word).reverse ++ (capitals ++ digits)] := by
  induction capitals generalizing before word with
  | nil =>
    have hsmall : ∀ d ∈ digits, isSmall d := fun d hd => by simp [isSmall, hdigits d hd]
    have hparts := chunkWords_small hsmall (before :: word) []
    rw [List.append_nil] at hparts
    rw [List.nil_append, hparts, chunkWords, List.reverse_append, List.reverse_reverse]
  | cons c capitals ih =>
    obtain ⟨hc, hcapitals⟩ := List.forall_mem_cons.1 h
    have hafter : (capitals ++ digits).head?.any Char.isLower = false := by
      cases capitals with
      | cons next capitals =>
        exact Bool.eq_false_iff.2 (Char.not_isLower_of_isUpper (hcapitals next List.mem_cons_self))
      | nil =>
        cases digits with
        | nil => rfl
        | cons d digits => exact isLower_of_isDigit (hdigits d List.mem_cons_self)
    have hsmall : (before.isLower || before.isDigit) = false := isSmall_of_isUpper hbefore
    have hstart : startsWord before c (capitals ++ digits).head? = false := by
      rw [startsWord, hafter, hsmall, Bool.and_false, Bool.or_false, Bool.and_false]
    rw [List.cons_append, chunkWords, hstart, if_neg Bool.false_ne_true, ih hc hcapitals]
    simp

/-- **Capitals with digits behind them are one word.** -/
theorem words_of_capitals {c : Char} (hc : c.isUpper) {capitals : List Char}
    (h : ∀ d ∈ capitals, d.isUpper) {digits : List Char} (hdigits : ∀ d ∈ digits, d.isDigit) :
    words (c :: (capitals ++ digits)) = [c :: (capitals ++ digits)] := by
  have hseparator : ∀ d ∈ c :: (capitals ++ digits), isSeparator d = false := by
    refine fun d hd => isSeparator_of_isAlphanum ?_
    rcases List.mem_cons.1 hd with rfl | hd
    · exact isAlphanum_of_isUpper hc
    · rcases List.mem_append.1 hd with hd | hd
      · exact isAlphanum_of_isUpper (h d hd)
      · simp [Char.isAlphanum, hdigits d hd]
  rw [words_eq_chunkWords (List.cons_ne_nil _ _) hseparator, chunkWords,
    chunkWords_capitals hc h hdigits]
  rfl

end Serde
end Ferrotype

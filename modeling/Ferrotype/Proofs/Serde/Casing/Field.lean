/-
# Policies on the names of fields

Serde changes the name of a field character by character and looks for its underscores
(`fieldRule`); the translator cuts it into words, drops the underscores and puts the words together
again. Both come to the same if the policy writes no separators. If it does, an underscore is lost
at either end of the name and next to another one, so the policy agrees with serde if and only if
every underscore stands alone (`apply_field_iff`).
-/

import Ferrotype.Proofs.Serde.Casing

namespace Ferrotype
namespace Serde

/-! ## The rule by characters -/

/-- The name of a field without underscores, where the first character behind them, and the next one
if told so, is a capital. -/
def withoutUnderscores : Bool → List Char → List Char
  | _, [] => []
  | capital, c :: cs =>
    if c = '_' then withoutUnderscores true cs
    else (if capital then c.toUpper else c) :: withoutUnderscores false cs

/-- The name of a field under a policy. -/
def Casing.fieldRule : Casing → List Char → List Char
  | lower, cs | snake, cs => cs
  | upper, cs | screamingSnake, cs => cs.map Char.toUpper
  | pascal, cs => withoutUnderscores true cs
  | camel, cs => lowerFirst (withoutUnderscores true cs)
  | kebab, cs => cs.map dashed
  | screamingKebab, cs => (cs.map Char.toUpper).map dashed

example : Casing.fieldRule .camel "user_reviews".toList = "userReviews".toList := by decide

/-! ## Names as texts with underscores between them -/

/-- Whether a name is one of a field in the usual style: small letters, digits and underscores, and
not only underscores. -/
def isFieldName (name : List Char) : Bool :=
  (name.all fun c => isSmall c || c == '_') && name.any (· != '_')

/-- Whether the underscores of a name stand alone: none is its first or its last character or next
to another one. -/
def HasLoneUnderscores (name : List Char) : Prop := ¬ ['_', '_'] <:+: '_' :: name ++ ['_']

/-- A field's name is made of texts without underscores, any of which may be empty. -/
theorem exists_joinWith_eq {name : List Char} (h : ∀ c ∈ name, isSmall c || c == '_') :
    ∃ text texts, name = joinWith '_' (text :: texts) ∧ AreSmall (text :: texts) := by
  induction name with
  | nil => exact ⟨[], [], rfl, by simp [AreSmall]⟩
  | cons c cs ih =>
    obtain ⟨hc, hcs⟩ := List.forall_mem_cons.1 h
    obtain ⟨text, texts, rfl, hsmall⟩ := ih hcs
    obtain ⟨htext, htexts⟩ := List.forall_mem_cons.1 hsmall
    rw [Bool.or_eq_true, beq_iff_eq] at hc
    rcases hc with hc | rfl
    · refine ⟨c :: text, texts, by simp [joinWith_cons], ?_⟩
      exact List.forall_mem_cons.2 ⟨List.forall_mem_cons.2 ⟨hc, htext⟩, htexts⟩
    · exact ⟨[], text :: texts, rfl, List.forall_mem_cons.2 ⟨List.forall_mem_nil _, hsmall⟩⟩

/-- The texts that are not empty are left if there is another character than underscores. -/
theorem filter_ne_nil_of_mem {texts : List (List Char)} {c : Char} (hc : c ∈ joinWith '_' texts)
    (hne : c ≠ '_') : texts.filter (!·.isEmpty) ≠ [] := by
  obtain ⟨text, htext, hmem⟩ : ∃ text ∈ texts, c ∈ text := by
    cases texts with
    | nil => cases hc
    | cons text texts =>
      rw [joinWith_cons, List.mem_append, List.mem_flatMap] at hc
      rcases hc with hc | ⟨text', htext', hc⟩
      · exact ⟨text, List.mem_cons_self, hc⟩
      · exact ⟨text', List.mem_cons_of_mem _ htext', (List.mem_cons.1 hc).resolve_left hne⟩
  refine List.ne_nil_of_mem (List.mem_filter.2 ⟨htext, ?_⟩)
  simpa using List.ne_nil_of_mem hmem

section Texts

variable {texts : List (List Char)}

/-- The words of a name are those of these texts that are not empty. -/
theorem words_texts (h : AreSmall texts) :
    words (joinWith '_' texts) = texts.filter (!·.isEmpty) := by
  rw [words_joinWith (by decide)]
  induction texts with
  | nil => rfl
  | cons text texts ih =>
    obtain ⟨htext, htexts⟩ := List.forall_mem_cons.1 h
    rw [List.flatMap_cons, ih htexts]
    cases text with
    | nil => rfl
    | cons c cs =>
      rw [words_of_small (List.cons_ne_nil c cs) htext]
      rfl

/-! ### The rule for fields -/

/-- Small characters are kept up to the next underscore. -/
theorem withoutUnderscores_append {text : List Char} (h : ∀ c ∈ text, isSmall c)
    (rest : List Char) :
    withoutUnderscores false (text ++ rest) = text ++ withoutUnderscores false rest := by
  induction text with
  | nil => rfl
  | cons c cs ih =>
    obtain ⟨hc, hcs⟩ := List.forall_mem_cons.1 h
    have hne : c ≠ '_' := by
      rintro rfl
      exact absurd hc (by decide)
    rw [List.cons_append, withoutUnderscores, if_neg hne, ih hcs, if_neg Bool.false_ne_true]
    rfl

/-- Behind an underscore the first of them becomes a capital; if there is none, the next one
does. -/
theorem withoutUnderscores_capital {text : List Char} (h : ∀ c ∈ text, isSmall c)
    (rest : List Char) : withoutUnderscores true (text ++ rest) =
      Unicode.capitalize text ++ withoutUnderscores text.isEmpty rest := by
  cases text with
  | nil => rfl
  | cons c cs =>
    obtain ⟨hc, hcs⟩ := List.forall_mem_cons.1 h
    have hne : c ≠ '_' := by
      rintro rfl
      exact absurd hc (by decide)
    rw [List.cons_append, withoutUnderscores, if_neg hne, if_pos rfl, withoutUnderscores_append hcs,
      Unicode.capitalize_cons (Unicode.toNat_lt_of_isAlphanum (isAlphanum_of_isSmall hc))]
    rfl

/-- Behind an underscore it does not matter what came before it. -/
theorem withoutUnderscores_flatMap (h : AreSmall texts) (capital : Bool) :
    withoutUnderscores capital (texts.flatMap ('_' :: ·)) = texts.flatMap Unicode.capitalize := by
  induction texts generalizing capital with
  | nil => cases capital <;> rfl
  | cons text texts ih =>
    obtain ⟨htext, htexts⟩ := List.forall_mem_cons.1 h
    rw [List.flatMap_cons, List.cons_append, withoutUnderscores, if_pos rfl,
      withoutUnderscores_capital htext, ih htexts, List.flatMap_cons]

/-- The rule puts the words together. -/
theorem withoutUnderscores_texts (h : AreSmall texts) :
    withoutUnderscores true (joinWith '_' texts) =
      (texts.filter (!·.isEmpty)).flatMap Unicode.capitalize := by
  have hfilter : (texts.filter (!·.isEmpty)).flatMap Unicode.capitalize =
      texts.flatMap Unicode.capitalize := by
    induction texts with
    | nil => rfl
    | cons text texts ih =>
      have htexts := ih (List.forall_mem_cons.1 h).2
      cases text with
      | nil => exact htexts
      | cons c cs => exact congrArg (Unicode.capitalize (c :: cs) ++ ·) htexts
  rw [hfilter]
  cases texts with
  | nil => rfl
  | cons text texts =>
    obtain ⟨htext, htexts⟩ := List.forall_mem_cons.1 h
    rw [joinWith_cons, withoutUnderscores_capital htext, withoutUnderscores_flatMap htexts,
      List.flatMap_cons]

/-! ### Underscores that are lost -/

/-- Two underscores stand behind a text that holds none. -/
theorem infix_append_iff {text : List Char} (h : '_' ∉ text) (rest : List Char) :
    ['_', '_'] <:+: text ++ rest ↔ ['_', '_'] <:+: rest := by
  induction text with
  | nil => rfl
  | cons c cs ih =>
    rw [List.mem_cons, not_or] at h
    rw [List.cons_append, List.infix_cons_iff, List.cons_prefix_cons, ih h.2]
    simp [h.1]

/-- Between texts with an underscore each, two of them stand next to each other only around an empty
one. -/
theorem infix_flatMap_iff (h : AreSmall texts) :
    ['_', '_'] <:+: texts.flatMap ('_' :: ·) ++ ['_'] ↔ [] ∈ texts := by
  induction texts with
  | nil => decide
  | cons text texts ih =>
    obtain ⟨htext, htexts⟩ := List.forall_mem_cons.1 h
    obtain ⟨rest, hrest⟩ : ∃ rest, texts.flatMap ('_' :: ·) ++ ['_'] = '_' :: rest := by
      cases texts <;> exact ⟨_, rfl⟩
    have hmem : '_' ∉ text := fun hmem => absurd (htext _ hmem) (by decide)
    rw [List.flatMap_cons, List.cons_append, List.cons_append, List.append_assoc,
      List.infix_cons_iff, infix_append_iff hmem, ih htexts, List.mem_cons]
    refine or_congr_left ?_
    cases text with
    | nil => simp [hrest]
    | cons c cs =>
      rw [List.mem_cons, not_or] at hmem
      simp [hmem.1]

/-- All underscores of a name stand alone exactly if none of its parts is empty. -/
theorem hasLoneUnderscores_iff (h : AreSmall texts) (hne : texts ≠ []) :
    HasLoneUnderscores (joinWith '_' texts) ↔ [] ∉ texts := by
  rw [HasLoneUnderscores, ← infix_flatMap_iff h]
  cases texts with
  | nil => exact absurd rfl hne
  | cons text texts => simp [joinWith_cons]

/-- A joined text is as long as its parts and the separators between them. -/
theorem length_joinWith (sep : Char) (hne : texts ≠ []) :
    (joinWith sep texts).length + 1 = (texts.map (·.length + 1)).sum := by
  cases texts with
  | nil => exact absurd rfl hne
  | cons text texts =>
    rw [joinWith_cons, List.length_append, List.length_flatMap, List.map_cons, List.sum_cons]
    simp only [List.length_cons]
    omega

/-- Without the empty texts fewer separators are written. -/
theorem length_filter_texts (texts : List (List Char)) :
    ((texts.filter (!·.isEmpty)).map (·.length + 1)).sum + texts.count [] =
      (texts.map (·.length + 1)).sum := by
  induction texts with
  | nil => rfl
  | cons text texts ih =>
    cases text with
    | nil =>
      rw [List.filter_cons_of_neg (by simp), List.count_cons_self, List.map_cons, List.sum_cons,
        ← ih]
      simp only [List.length_nil]
      omega
    | cons c cs =>
      rw [List.filter_cons_of_pos rfl, List.count_cons_of_ne (by simp), List.map_cons,
        List.map_cons, List.sum_cons, List.sum_cons, ← ih]
      omega

/-- **An empty text is lost between the words**, and nothing makes up for the separator that is
missing then. -/
theorem map_joinWith_filter_iff (f : Char → Char) (hne : texts.filter (!·.isEmpty) ≠ []) :
    (joinWith '_' (texts.filter (!·.isEmpty))).map f = (joinWith '_' texts).map f ↔
      [] ∉ texts := by
  constructor
  · intro heq
    have htexts : texts ≠ [] := by
      rintro rfl
      exact hne rfl
    have hlength := congrArg List.length heq
    rw [List.length_map, List.length_map] at hlength
    have hfilter := length_joinWith '_' hne
    have hall := length_joinWith '_' htexts
    have hcount := length_filter_texts texts
    rw [← List.count_eq_zero]
    omega
  · intro hnil
    have hself : texts.filter (!·.isEmpty) = texts := by
      refine List.filter_eq_self.2 fun text htext => ?_
      rw [Bool.not_eq_true', List.isEmpty_eq_false_iff]
      rintro rfl
      exact hnil htext
    rw [hself]

end Texts

namespace Casing

/-- A policy agrees with the rule on texts with underscores between them, unless it writes
separators and one of the texts is empty. -/
theorem applyChars_texts_iff {texts : List (List Char)} (h : AreSmall texts)
    (hne : texts.filter (!·.isEmpty) ≠ []) (p : Casing) :
    p.applyChars (joinWith '_' texts) = p.fieldRule (joinWith '_' texts) ↔
      (p.separates → [] ∉ texts) := by
  have hascii : Unicode.IsAscii (joinWith '_' texts) := isAscii_joinWith (by decide) h
  have hkept : AreSmall (texts.filter (!·.isEmpty)) := fun w hw => h w (List.mem_filter.1 hw).1
  have hnil : [] ∉ texts.filter (!·.isEmpty) := fun hmem => by simp at hmem
  have hcut {p : Casing} (hp : p.cuts) : p.applyChars (joinWith '_' texts) =
      p.ofWords (texts.filter (!·.isEmpty)) := by
    rw [applyChars_of_words hp (words_texts h) hne, map_lower_of_areSmall hkept]
  have hjoin (f : Char → Char) : (snake.ofWords (texts.filter (!·.isEmpty))).map f =
      (joinWith '_' texts).map f ↔ [] ∉ texts := map_joinWith_filter_iff f hne
  cases p with
  | lower =>
    refine iff_of_true ?_ Bool.noConfusion
    have hunderscore : '_'.toLower = '_' := by decide
    rw [applyChars, Unicode.lower_eq_map hascii, map_joinWith, hunderscore, fieldRule,
      ← List.map_congr_left fun w hw => Unicode.lower_eq_map (isAscii_of_isSmall (h w hw)),
      map_lower_of_areSmall h]
  | upper => exact iff_of_true (Unicode.upper_eq_map hascii) Bool.noConfusion
  | pascal =>
    refine iff_of_true ?_ Bool.noConfusion
    rw [hcut rfl, fieldRule, withoutUnderscores_texts h, ofWords]
  | camel =>
    refine iff_of_true ?_ Bool.noConfusion
    rw [hcut rfl, ofWords_camel hkept hnil, fieldRule, withoutUnderscores_texts h, ofWords]
  | snake =>
    have hself := hjoin id
    rw [List.map_id, List.map_id] at hself
    rw [hcut rfl, fieldRule, hself]
    exact (imp_iff_right rfl).symm
  | screamingSnake =>
    rw [hcut rfl, ofWords_screamingSnake hkept, fieldRule, hjoin]
    exact (imp_iff_right rfl).symm
  | kebab =>
    rw [hcut rfl, ofWords_kebab hkept, fieldRule, hjoin]
    exact (imp_iff_right rfl).symm
  | screamingKebab =>
    rw [hcut rfl, ofWords_screamingKebab hkept, fieldRule, List.map_map, List.map_map, hjoin]
    exact (imp_iff_right rfl).symm

/-- **On the names of fields, policies do what serde does** if they write no separators; one that
writes them agrees with serde if and only if the underscores of the name stand alone. -/
theorem apply_field_iff {name : String} (h : isFieldName name.toList) (p : Casing) :
    p.apply name = String.ofList (p.fieldRule name.toList) ↔
      (p.separates → HasLoneUnderscores name.toList) := by
  rw [isFieldName, Bool.and_eq_true, List.all_eq_true, List.any_eq_true] at h
  obtain ⟨hchars, c, hc, hne⟩ := h
  obtain ⟨text, texts, hname, hsmall⟩ := exists_joinWith_eq hchars
  rw [apply, String.ofList_inj, hname, hasLoneUnderscores_iff hsmall (List.cons_ne_nil _ _)]
  rw [hname] at hc
  exact applyChars_texts_iff hsmall (filter_ne_nil_of_mem hc (bne_iff_ne.1 hne)) p

/-- An underscore at the start of a name is lost, and so is one of two neighbours, unless the policy
writes none anyway. -/
theorem apply_field_iff_raw_id :
    isFieldName "_raw__id".toList ∧
      snake.apply "_raw__id" ≠ String.ofList (snake.fieldRule "_raw__id".toList) ∧
      snake.apply "_raw__id" = "raw_id" ∧
      camel.apply "_raw__id" = String.ofList (camel.fieldRule "_raw__id".toList) ∧
      camel.apply "_raw__id" = "rawId" := by
  have hname : isFieldName "_raw__id".toList := by decide
  have hlost : ¬ HasLoneUnderscores "_raw__id".toList := by
    rw [HasLoneUnderscores]
    decide
  have hcamel := (apply_field_iff hname camel).2 Bool.noConfusion
  refine ⟨hname, fun heq => hlost ((apply_field_iff hname snake).1 heq rfl), by decide +kernel,
    hcamel, ?_⟩
  rw [hcamel]
  decide

end Casing
end Serde
end Ferrotype

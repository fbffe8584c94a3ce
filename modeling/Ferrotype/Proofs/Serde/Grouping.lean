/-
# Arguments in groups

Every fact has a search of its own: from attribute to attribute, and inside one that goes by the
name from argument to argument, up to the first argument with the key (`search?`). Such a search
does not see where one attribute ends and the next one starts (`search?_eq_argument?`), and where
no key occurs twice it does not see the order either (`argument?_of_perm`). So the facts are those
of the arguments, however these are grouped (`facts_of_arguments`).
-/

import Ferrotype.Serde.Attributes
import Mathlib.Data.List.Nodup

namespace Ferrotype
namespace Serde

open Rust (Argument Attribute)

/-- The first argument with a key in the first attribute of a name that has one. -/
def search? (name key : String) : List Attribute → Option Argument
  | [] => none
  | a :: attributes =>
    if named name a then (argument? key a.args).or (search? name key attributes)
    else search? name key attributes

/-- **A search from attribute to attribute finds the first argument of all.** -/
theorem search?_eq_argument? (name key : String) (attributes : List Attribute) :
    search? name key attributes = argument? key (argumentsOf name attributes) := by
  induction attributes with
  | nil => rfl
  | cons a attributes ih =>
    rw [search?, argumentsOf]
    by_cases ha : named name a
    · rw [if_pos ha, List.filter_cons_of_pos ha, List.flatMap_cons, argument?, argument?,
        List.find?_append, ih]
      rfl
    · rw [if_neg ha, List.filter_cons_of_neg ha, ih]
      rfl

/-- Where no key occurs twice, an argument is found under its key. -/
theorem argument?_eq_some_iff {args : List Argument} (hkeys : (args.map (·.key)).Nodup)
    {key : String} {a : Argument} : argument? key args = some a ↔ a ∈ args ∧ a.key = key := by
  have hkey {k : String} {b : Argument} (hfound : argument? k args = some b) : b.key = k := by
    simpa using List.find?_some hfound
  constructor
  · intro hfound
    exact ⟨List.mem_of_find?_eq_some hfound, hkey hfound⟩
  · rintro ⟨hmem, rfl⟩
    cases hfound : argument? a.key args with
    | none =>
      have hnone := List.find?_eq_none.1 hfound a hmem
      exact absurd (beq_self_eq_true a.key) hnone
    | some b =>
      rw [List.inj_on_of_nodup_map hkeys (List.mem_of_find?_eq_some hfound) hmem (hkey hfound)]

/-- **The order of arguments does not count where no key occurs twice.** -/
theorem argument?_of_perm {xs ys : List Argument} (h : xs.Perm ys)
    (hkeys : (xs.map (·.key)).Nodup) (key : String) : argument? key xs = argument? key ys := by
  have hkeys' : (ys.map (·.key)).Nodup := (h.map (·.key)).nodup_iff.1 hkeys
  refine Option.ext fun a => ?_
  rw [argument?_eq_some_iff hkeys, argument?_eq_some_iff hkeys', h.mem_iff]

section Facts

variable {xs ys : List Argument} (h : ∀ key, argument? key xs = argument? key ys)
include h

/-- The policy is found by its key. -/
theorem casing?_congr : casing? xs = casing? ys := by
  rw [casing?, casing?, value?, value?, h]

/-- What is skipped is found by its keys. -/
theorem isSkipped_congr : isSkipped xs = isSkipped ys := by
  simp only [isSkipped, hasKey, h]

/-- The facts of a declaration depend on what its keys find, and on nothing else. -/
theorem declarationFactsOf_congr (exported : Bool) :
    declarationFactsOf exported xs = declarationFactsOf exported ys := by
  simp only [declarationFactsOf, casing?_congr h, value?, hasKey, h]

/-- So do those of a field. -/
theorem fieldFactsOf_congr : fieldFactsOf xs = fieldFactsOf ys := by
  simp only [fieldFactsOf, isSkipped_congr h, value?, hasKey, h]

/-- So do those of a variant. -/
theorem variantFactsOf_congr : variantFactsOf xs = variantFactsOf ys := by
  simp only [variantFactsOf, isSkipped_congr h, casing?_congr h, value?, h]

end Facts

/-- **Facts depend on the arguments alone.** Two lists of attributes give the same facts if the
arguments of their `serde` attributes, put one after the other, are the same, or if no key occurs
twice among these and they are the same in another order: every search finds the same argument in
both. Only the export marker is asked of the attributes themselves. -/
theorem facts_of_arguments {as bs : List Attribute}
    (h : argumentsOf attributeName as = argumentsOf attributeName bs ∨
      (argumentsOf attributeName as).Perm (argumentsOf attributeName bs) ∧
        ((argumentsOf attributeName as).map (·.key)).Nodup) :
    (∀ key, search? attributeName key as = search? attributeName key bs) ∧
      (∀ marker, declarationFacts marker as = declarationFacts marker bs ↔
        hasAttribute marker as = hasAttribute marker bs) ∧
      fieldFacts as = fieldFacts bs ∧ variantFacts as = variantFacts bs := by
  have hargs (key : String) : argument? key (argumentsOf attributeName as) =
      argument? key (argumentsOf attributeName bs) := by
    rcases h with heq | ⟨hperm, hkeys⟩
    · rw [heq]
    · exact argument?_of_perm hperm hkeys key
  refine ⟨fun key => ?_, fun marker => ⟨fun hfacts => ?_, fun hmarker => ?_⟩, ?_, ?_⟩
  · rw [search?_eq_argument?, search?_eq_argument?, hargs]
  · exact congrArg DeclarationFacts.exported hfacts
  · rw [declarationFacts, declarationFacts, hmarker, declarationFactsOf_congr hargs]
  · exact fieldFactsOf_congr hargs
  · exact variantFactsOf_congr hargs

/-- One attribute with three arguments says the same as two with another one between them, one of
which goes by its path and holds two of the arguments in another order. -/
theorem facts_of_arguments_split :
    let together : List Attribute := [⟨"tsync", []⟩, ⟨"serde",
      [⟨"tag", some "kind"⟩, ⟨"rename", some "serialize = \"new\""⟩, ⟨"skip", none⟩]⟩]
    let apart : List Attribute := [⟨"derives::serde", [⟨"skip", none⟩, ⟨"tag", some "kind"⟩]⟩,
      ⟨"export::tsync", [⟨"skip", none⟩]⟩, ⟨"serde", [⟨"rename", some "serialize = \"new\""⟩]⟩]
    ((argumentsOf attributeName together).Perm (argumentsOf attributeName apart) ∧
      ((argumentsOf attributeName together).map (·.key)).Nodup) ∧
    argumentsOf attributeName together ≠ argumentsOf attributeName apart ∧
    declarationFacts "tsync" together = declarationFacts "tsync" apart ∧
    fieldFacts together = fieldFacts apart ∧ variantFacts together = variantFacts apart ∧
    variantFacts apart = ⟨some "new", none, true⟩ := by
  intro together apart
  have hargs : (argumentsOf attributeName together).Perm (argumentsOf attributeName apart) ∧
      ((argumentsOf attributeName together).map (·.key)).Nodup := by decide
  obtain ⟨-, hdeclaration, hfield, hvariant⟩ := facts_of_arguments (.inr hargs)
  have hmarker : hasAttribute "tsync" together = hasAttribute "tsync" apart := by decide
  exact ⟨hargs, by decide, (hdeclaration "tsync").2 hmarker, hfield, hvariant, by decide⟩

end Serde
end Ferrotype

/-
# One argument more or less

What attributes say is looked up by key, so an argument under one key says nothing about another.
Two changes to attributes are followed here. A member is given an attribute with its new name,
anywhere among those it has (`Placement`), and a declaration or a variant loses its casing policy
(`withoutPolicy`). Either changes one fact and keeps all others (`fieldFacts_rename`,
`variantFacts_rename`, `declarationFacts_withoutPolicy`, `variantFacts_withoutPolicy`).
-/

import Ferrotype.Proofs.Serde.Directive
import Mathlib.Data.List.Basic

namespace Ferrotype
namespace Serde

open Rust (Argument Attribute)

/-- The arguments of two lists of attributes. -/
theorem argumentsOf_append (name : String) (xs ys : List Attribute) :
    argumentsOf name (xs ++ ys) = argumentsOf name xs ++ argumentsOf name ys := by
  simp [argumentsOf]

/-! ## A new name -/

/-- A way to put an attribute among others. -/
structure Placement where
  place : Attribute → List Attribute → List Attribute
  inserts (a : Attribute) (attributes : List Attribute) : ∃ before after,
    attributes = before ++ after ∧ place a attributes = before ++ a :: after

/-- Whether the attributes of a member can say under which name a policy puts it: a renaming among
them has a value, and without one the name under the policy is not taken for the nested form. -/
def canRename (p : Casing) (name : String) (attributes : List Attribute) : Bool :=
  if hasKey "rename" (argumentsOf attributeName attributes) then
    (value? "rename" (argumentsOf attributeName attributes)).isSome
  else !isNested (p.apply name).toList

namespace Placement

/-- Behind all others. -/
def last : Placement where
  place a attributes := attributes ++ [a]
  inserts _ attributes := ⟨attributes, [], (List.append_nil _).symm, rfl⟩

variable (way : Placement)

/-- The attributes of a member, which say under which name a policy puts it, unless it is renamed
already. -/
def rename (p : Casing) (name : String) (attributes : List Attribute) : List Attribute :=
  if hasKey "rename" (argumentsOf attributeName attributes) then attributes
  else way.place (directive "rename" (p.apply name)) attributes

variable (key value : String) (attributes : List Attribute)

/-- The arguments with a directive among the attributes. -/
theorem exists_argumentsOf_place : ∃ before after,
    argumentsOf attributeName attributes = before ++ after ∧
      argumentsOf attributeName (way.place (directive key value) attributes) =
        before ++ ⟨key, some value⟩ :: after := by
  obtain ⟨before, after, hattributes, hplace⟩ := way.inserts (directive key value) attributes
  refine ⟨argumentsOf attributeName before, argumentsOf attributeName after, ?_, ?_⟩
  · rw [hattributes, argumentsOf_append]
  · have hdirective : argumentsOf attributeName (directive key value :: after) =
        ⟨key, some value⟩ :: argumentsOf attributeName after := rfl
    rw [hplace, argumentsOf_append, hdirective]

/-- A directive hides no argument under another key. -/
theorem argument?_place_of_ne {other : String} (hne : key ≠ other) :
    argument? other (argumentsOf attributeName (way.place (directive key value) attributes)) =
      argument? other (argumentsOf attributeName attributes) := by
  obtain ⟨before, after, hargs, hplace⟩ := way.exists_argumentsOf_place key value attributes
  have hskip : (⟨key, some value⟩ :: after).find? (·.key == other) = after.find? (·.key == other) :=
    List.find?_cons_of_neg (by simpa using hne)
  rw [hargs, hplace, argument?, argument?, List.find?_append, List.find?_append, hskip]

/-- A directive under a new key is found. -/
theorem argument?_place_self
    (hnew : hasKey key (argumentsOf attributeName attributes) = false) :
    argument? key (argumentsOf attributeName (way.place (directive key value) attributes)) =
      some ⟨key, some value⟩ := by
  obtain ⟨before, after, hargs, hplace⟩ := way.exists_argumentsOf_place key value attributes
  have hnone : argument? key (before ++ after) = none := by
    rw [← hargs]
    exact Option.isNone_iff_eq_none.1 (Option.isSome_eq_false_iff.1 hnew)
  have hbefore : before.find? (·.key == key) = none := by
    rw [argument?, List.find?_append, Option.or_eq_none_iff] at hnone
    exact hnone.1
  rw [hplace, argument?, List.find?_append, hbefore, Option.none_or]
  exact List.find?_cons_of_pos (beq_self_eq_true key)

/-- A new name hides no argument under another key. -/
theorem argument?_rename_of_ne (p : Casing) (name : String) {other : String}
    (hne : "rename" ≠ other) :
    argument? other (argumentsOf attributeName (way.rename p name attributes)) =
      argument? other (argumentsOf attributeName attributes) := by
  rw [rename]
  split
  · rfl
  · exact way.argument?_place_of_ne _ _ _ hne

variable {p : Casing} {name : String} {attributes}

/-- The new name is the name under the policy. -/
theorem value?_rename (h : canRename p name attributes) :
    value? "rename" (argumentsOf attributeName (way.rename p name attributes)) =
      some (memberName (some p) (value? "rename" (argumentsOf attributeName attributes)) name) := by
  rw [canRename] at h
  rw [rename]
  cases hkey : hasKey "rename" (argumentsOf attributeName attributes) with
  | true =>
    rw [hkey, if_pos rfl] at h
    obtain ⟨renamed, hrenamed⟩ := Option.isSome_iff_exists.1 h
    rw [if_pos rfl, hrenamed]
    rfl
  | false =>
    rw [hkey, if_neg Bool.false_ne_true, Bool.not_eq_true'] at h
    have hnone : value? "rename" (argumentsOf attributeName attributes) = none := by
      rw [value?, Option.isNone_iff_eq_none.1 (Option.isSome_eq_false_iff.1 hkey)]
      rfl
    rw [if_neg Bool.false_ne_true, value?, way.argument?_place_self _ _ _ hkey, hnone]
    exact (effectiveValue_eq_some_iff _).2 h

/-- **A field with a new name differs in that name only.** -/
theorem fieldFacts_rename (h : canRename p name attributes) :
    fieldFacts (way.rename p name attributes) =
      { fieldFacts attributes with
        rename := some (memberName (some p) (fieldFacts attributes).rename name) } := by
  have hother {other : String} (hne : "rename" ≠ other) :=
    way.argument?_rename_of_ne attributes p name hne
  simp only [fieldFacts, fieldFactsOf, isSkipped, hasKey, way.value?_rename h,
    hother (by decide : "rename" ≠ "flatten"), hother (by decide : "rename" ≠ "skip"),
    hother (by decide : "rename" ≠ "skip_serializing"),
    hother (by decide : "rename" ≠ "skip_serializing_if")]

/-- **A variant with a new name differs in that name only.** -/
theorem variantFacts_rename (h : canRename p name attributes) :
    variantFacts (way.rename p name attributes) =
      { variantFacts attributes with
        rename := some (memberName (some p) (variantFacts attributes).rename name) } := by
  have hother {other : String} (hne : "rename" ≠ other) :=
    way.argument?_rename_of_ne attributes p name hne
  simp only [variantFacts, variantFactsOf, isSkipped, hasKey, casing?, value?_rename way h,
    value?.eq_1 "rename_all", hother (by decide : "rename" ≠ "rename_all"),
    hother (by decide : "rename" ≠ "skip"), hother (by decide : "rename" ≠ "skip_serializing")]

end Placement

/-! ## No policy -/

/-- An attribute without an argument that names a casing policy. -/
def dropPolicy (a : Attribute) : Attribute :=
  if named attributeName a then { a with args := a.args.filter (·.key != "rename_all") } else a

/-- An attribute without its policy has the name that it had. -/
@[simp] theorem named_dropPolicy (name : String) (a : Attribute) :
    named name (dropPolicy a) = named name a := by
  rw [dropPolicy]
  split <;> rfl

/-- Attributes without an argument that names a casing policy. -/
def withoutPolicy (attributes : List Attribute) : List Attribute := attributes.map dropPolicy

/-- Without policies the other arguments are left. -/
theorem argumentsOf_withoutPolicy (attributes : List Attribute) :
    argumentsOf attributeName (withoutPolicy attributes) =
      (argumentsOf attributeName attributes).filter (·.key != "rename_all") := by
  have hnamed : named attributeName ∘ dropPolicy = named attributeName :=
    funext (named_dropPolicy attributeName)
  have hargs : ∀ a ∈ attributes.filter (named attributeName),
      (dropPolicy a).args = a.args.filter (·.key != "rename_all") := fun a ha => by
    rw [dropPolicy, if_pos (List.mem_filter.1 ha).2]
  rw [argumentsOf, withoutPolicy, List.filter_map, hnamed, List.flatMap_map, argumentsOf,
    List.filter_flatMap]
  exact List.flatMap_congr hargs

/-- No other argument is lost. -/
theorem argument?_withoutPolicy_of_ne {key : String} (hne : key ≠ "rename_all")
    (attributes : List Attribute) :
    argument? key (argumentsOf attributeName (withoutPolicy attributes)) =
      argument? key (argumentsOf attributeName attributes) := by
  have hkept (a : Argument) :
      decide ((a.key != "rename_all") = true ∧ (a.key == key) = true) = (a.key == key) := by
    rw [Bool.decide_and, Bool.decide_coe, Bool.decide_coe]
    cases hkey : a.key == key with
    | false => exact Bool.and_false _
    | true => simpa [beq_iff_eq.1 hkey] using hne
  rw [argumentsOf_withoutPolicy, argument?, argument?, List.find?_filter]
  exact congrArg (List.find? · _) (funext hkept)

/-- Without policies none is found. -/
theorem argument?_withoutPolicy_self (attributes : List Attribute) :
    argument? "rename_all" (argumentsOf attributeName (withoutPolicy attributes)) = none := by
  rw [argumentsOf_withoutPolicy, argument?, List.find?_filter, List.find?_eq_none]
  intro a _
  simp

/-- Without policies there is none in effect. -/
theorem casing?_withoutPolicy (attributes : List Attribute) :
    casing? (argumentsOf attributeName (withoutPolicy attributes)) = none := by
  have hpolicy := argument?_withoutPolicy_self attributes
  rw [casing?, value?, hpolicy]
  rfl

/-- Without policies the same attributes are there. -/
theorem hasAttribute_withoutPolicy (name : String) (attributes : List Attribute) :
    hasAttribute name (withoutPolicy attributes) = hasAttribute name attributes := by
  rw [hasAttribute, hasAttribute, withoutPolicy, List.any_map]
  exact congrArg (attributes.any ·) (funext (named_dropPolicy name))

/-- The facts of a declaration under another policy. -/
def DeclarationFacts.withCasing (facts : DeclarationFacts) (c : Option Casing) :
    DeclarationFacts :=
  { facts with casing := c }

/-- The facts of a variant under another policy for its fields. -/
def VariantFacts.withCasing (facts : VariantFacts) (c : Option Casing) : VariantFacts :=
  { facts with casing := c }

/-- **A declaration without its policy differs in the policy only.** -/
theorem declarationFacts_withoutPolicy (marker : String) (attributes : List Attribute) :
    declarationFacts marker (withoutPolicy attributes) =
      (declarationFacts marker attributes).withCasing none := by
  have hother {key : String} (hne : key ≠ "rename_all") :=
    argument?_withoutPolicy_of_ne hne attributes
  simp only [declarationFacts, declarationFactsOf, DeclarationFacts.withCasing,
    casing?_withoutPolicy, value?, hasKey, hasAttribute_withoutPolicy,
    hother (by decide : "tag" ≠ "rename_all"), hother (by decide : "content" ≠ "rename_all"),
    hother (by decide : "untagged" ≠ "rename_all")]

/-- **A variant without its policy differs in the policy only.** -/
theorem variantFacts_withoutPolicy (attributes : List Attribute) :
    variantFacts (withoutPolicy attributes) = (variantFacts attributes).withCasing none := by
  have hother {key : String} (hne : key ≠ "rename_all") :=
    argument?_withoutPolicy_of_ne hne attributes
  simp only [variantFacts, variantFactsOf, VariantFacts.withCasing, casing?_withoutPolicy, value?,
    hasKey, isSkipped, hother (by decide : "rename" ≠ "rename_all"),
    hother (by decide : "skip" ≠ "rename_all"),
    hother (by decide : "skip_serializing" ≠ "rename_all")]

end Serde
end Ferrotype

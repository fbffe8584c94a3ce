/-
# Types are translated without ambiguity

What a type means in TypeScript is a tree (`meaning`): a collection in order is an array of what its
elements mean, a set and a map apply `Set` and `Record`, a tuple goes position by position, and an
optional value is a union with `null`, once where options stand directly in each other. The text of
a translated type is read back as this tree with the precedences of TypeScript (`readType_type`), so
no bracket and no bar of it belongs to another part than the meaning says.
-/

import Ferrotype.Proofs.Translate.Enum
import Ferrotype.Proofs.TypeScript.TypeTree

namespace Ferrotype

namespace Rust
namespace TypeExpr

mutual

/-- Whether a type is named in all its parts: none is kept as text or of no known form, and names
are words. -/
def isNamed : TypeExpr → Bool
  | path name args => TypeScript.isTypeName name && isNamedAll args
  | primitive name => (scalars.lookup name).isSome || TypeScript.isTypeName name
  | option inner => inner.isNamed
  | sequence element => element.isNamed
  | set element => element.isNamed
  | map key value => key.isNamed && value.isNamed
  | tuple elements => isNamedAll elements
  | verbatim _ => false
  | unknown _ => false

/-- Whether types are named in all their parts. -/
def isNamedAll : List TypeExpr → Bool
  | [] => true
  | t :: ts => t.isNamed && isNamedAll ts

end

end TypeExpr
end Rust

namespace Translate

open TypeScript (TypeTree readType)
open TypeScript.TypeExpr (isReadable_apply)

mutual

/-- What a type means in a place that cannot be marked as optional. -/
def meaning : Rust.TypeExpr → TypeTree
  | .option (.option inner) => meaning (.option inner)
  | .option inner => .joined .union [meaning inner, .name "null"]
  | .sequence element => .array (meaning element)
  | .set element => .apply "Set" [meaning element]
  | .map key value => .apply "Record" [meaning key, meaning value]
  | .tuple elements => .tuple (meanings elements)
  | .primitive name => .name ((Rust.scalars.lookup name).getD name)
  | .path name [] => .name name
  | .path name (arg :: args) => .apply name (meaning arg :: meanings args)
  | .verbatim text => .name text
  | .unknown _ => .name "unknown"

/-- What types mean, one by one. -/
def meanings : List Rust.TypeExpr → List TypeTree
  | [] => []
  | t :: ts => meaning t :: meanings ts

end

/-- Scalars are written as words. -/
theorem isTypeName_scalar {name : String}
    (h : (Rust.scalars.lookup name).isSome || TypeScript.isTypeName name) :
    TypeScript.isTypeName ((Rust.scalars.lookup name).getD name) := by
  have hwords : ∀ e ∈ Rust.scalars, TypeScript.isTypeName e.2 := by decide
  cases htext : Rust.scalars.lookup name with
  | none =>
    rw [htext] at h
    exact h
  | some text =>
    obtain ⟨before, after, hsplit, -⟩ := List.lookup_eq_some_iff.1 htext
    exact hwords (name, text) (hsplit ▸ List.mem_append_right _ List.mem_cons_self)

/-- A scalar is readable, and so is a name. -/
theorem isReadable_scalar {name : String}
    (h : (Rust.scalars.lookup name).isSome || TypeScript.isTypeName name) :
    (scalar name).isReadable := by
  have htext := isTypeName_scalar h
  unfold scalar
  split <;> rename_i hlookup <;> rwa [hlookup] at htext

/-- The tree of a scalar is its counterpart or its own name. -/
theorem tree_scalar (name : String) :
    (scalar name).tree = .name ((Rust.scalars.lookup name).getD name) := by
  unfold scalar
  split <;> rename_i hlookup <;> rw [hlookup] <;> rfl

/-- Apart from its mark no type is a union. -/
theorem isUnion_slot (t : Rust.TypeExpr) : (slot t).type.isUnion = false := by
  cases t with
  | option inner => exact isUnion_slot inner
  | path name args => cases args <;> rfl
  | primitive name =>
    show (scalar name).isUnion = false
    unfold scalar
    split <;> rfl
  | _ => rfl

/-- A type that is no union is readable where it stands alone. -/
theorem isReadable_standalone {s : Slot} (h : s.type.isReadable)
    (hsingle : s.type.isUnion = false) :
    s.standalone.isReadable := by
  unfold Slot.standalone
  split
  · rw [TypeScript.TypeExpr.isReadable, hsingle, h]
    rfl
  · exact h

mutual

/-- The slot of a type whose parts have names is readable. The recursion is that on types. -/
theorem isReadable_slot (t : Rust.TypeExpr) (h : t.isNamed) : (slot t).type.isReadable := by
  cases t with
  | path name args =>
    rw [Rust.TypeExpr.isNamed, Bool.and_eq_true] at h
    cases args with
    | nil => exact h.1
    | cons arg args => exact isReadable_apply h.1 (isReadableAll_standaloneAll (arg :: args) h.2)
  | primitive name => exact isReadable_scalar h
  | option inner => exact isReadable_slot inner h
  | sequence element => exact isReadable_type element h
  | set element =>
    have helement := isReadable_type element h
    exact isReadable_apply (by decide) (Bool.and_eq_true_iff.2 ⟨helement, rfl⟩)
  | map key value =>
    rw [Rust.TypeExpr.isNamed, Bool.and_eq_true] at h
    have hkey := isReadable_type key h.1
    have hvalue := isReadable_type value h.2
    exact isReadable_apply (by decide)
      (Bool.and_eq_true_iff.2 ⟨hkey, Bool.and_eq_true_iff.2 ⟨hvalue, rfl⟩⟩)
  | tuple elements => exact isReadableAll_standaloneAll elements h
  | verbatim text => cases h
  | unknown label => cases h

/-- A type whose parts have names is readable. -/
theorem isReadable_type (t : Rust.TypeExpr) (h : t.isNamed) : (type t).isReadable :=
  isReadable_standalone (isReadable_slot t h) (isUnion_slot t)

/-- The same of lists of types. -/
theorem isReadableAll_standaloneAll (ts : List Rust.TypeExpr) (h : Rust.TypeExpr.isNamedAll ts) :
    TypeScript.TypeExpr.isReadableAll (standaloneAll ts) := by
  cases ts with
  | nil => rfl
  | cons t ts =>
    rw [Rust.TypeExpr.isNamedAll, Bool.and_eq_true] at h
    exact Bool.and_eq_true_iff.2 ⟨isReadable_type t h.1, isReadableAll_standaloneAll ts h.2⟩

end

/-! ## Trees -/

/-- An `Option` of no `Option` adds `null` to the tree. -/
theorem tree_option_of_not_option {t : Rust.TypeExpr} (h : t.isOption = false)
    (htree : (type t).tree = meaning t) : (type (.option t)).tree = meaning (.option t) := by
  have hmeaning : meaning (.option t) = .joined .union [meaning t, .name "null"] := by
    cases t with
    | option inner => cases h
    | _ => rw [meaning]; intro inner; nofun
  have htype : type t = (slot t).type := by
    rw [type, Slot.standalone, optional_slot, h, if_neg Bool.false_ne_true]
  rw [hmeaning, ← htree, htype]
  rfl

mutual

/-- **The tree of a translated type is what the type means.** -/
theorem tree_type (t : Rust.TypeExpr) : (type t).tree = meaning t := by
  cases t with
  | path name args =>
    cases args with
    | nil => rfl
    | cons arg args =>
      exact congrArg (TypeTree.apply name) (treeAll_standaloneAll (arg :: args))
  | primitive name => exact tree_scalar name
  | option inner =>
    cases inner with
    | option deeper => exact tree_type (.option deeper)
    | _ => exact tree_option_of_not_option rfl (tree_type _)
  | sequence element => exact congrArg TypeTree.array (tree_type element)
  | set element => exact congrArg (fun tree => TypeTree.apply "Set" [tree]) (tree_type element)
  | map key value =>
    exact congrArg₂ (fun k v => TypeTree.apply "Record" [k, v]) (tree_type key) (tree_type value)
  | tuple elements => exact congrArg TypeTree.tuple (treeAll_standaloneAll elements)
  | verbatim text => rfl
  | unknown label => rfl

/-- The trees of lists of types are what these mean. -/
theorem treeAll_standaloneAll (ts : List Rust.TypeExpr) :
    TypeScript.TypeExpr.treeAll (standaloneAll ts) = meanings ts := by
  cases ts with
  | nil => rfl
  | cons t ts => exact congrArg₂ List.cons (tree_type t) (treeAll_standaloneAll ts)

end

/-- **The text of a translated type is read as what the type means.** -/
theorem readType_type {t : Rust.TypeExpr} (h : t.isNamed) :
    readType (type t).render = some (meaning t) := by
  rw [TypeScript.readType_render (isReadable_type t h), tree_type]

/-- A map to lists of optional pages, which hold pairs of a number and an optional list. -/
def pages : Rust.TypeExpr :=
  .map (.primitive "String") (.sequence (.option (.option (.path "Page"
    [.tuple [.primitive "u8", .option (.sequence (.primitive "bool"))]]))))

/-- The outer bar stands inside the parentheses of the array, the inner one in its tuple. -/
theorem readType_pages :
    (type pages).render = "Record<string, (Page<[number, boolean[] | null]> | null)[]>" ∧
      pages.isNamed ∧ readType (type pages).render =
        some (.apply "Record" [.name "string", .array (.joined .union
          [.apply "Page" [.tuple [.name "number", .joined .union
            [.array (.name "boolean"), .name "null"]]], .name "null"])]) :=
  ⟨by decide, by decide, readType_type (by decide)⟩

end Translate
end Ferrotype

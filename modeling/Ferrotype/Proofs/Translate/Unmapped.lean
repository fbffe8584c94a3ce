/-
# Types without counterpart in a run

What the text of a run holds of types without counterpart is read off its fragments, which mark the
places where such a type is written. A run warns once for each of these places, in their order and
under the name of the declaration that holds it, and for one thing besides: the type of an exported
constant that is left out is converted before its value is looked at, so its parts without
counterpart are told although nothing of it is written (`translate_unmapped`).
-/

import Ferrotype.Proofs.Translate.Block
import Ferrotype.Proofs.TypeScript.Fragment
import Mathlib.Algebra.BigOperators.Group.List.Basic

namespace Ferrotype
namespace Rust
namespace TypeExpr

mutual

/-- The parts of a type that have no counterpart, from left to right: what was kept as text, what is
of no known form, and scalars that are not in the table. -/
def unmappedParts : TypeExpr → List String
  | path _ args => unmappedPartsAll args
  | primitive name => if (scalars.lookup name).isSome then [] else [name]
  | option inner => inner.unmappedParts
  | sequence element => element.unmappedParts
  | set element => element.unmappedParts
  | map key value => key.unmappedParts ++ value.unmappedParts
  | tuple elements => unmappedPartsAll elements
  | verbatim text => [text]
  | unknown label => [label]

/-- The parts of types that have no counterpart. -/
def unmappedPartsAll : List TypeExpr → List String
  | [] => []
  | t :: ts => t.unmappedParts ++ unmappedPartsAll ts

end

end TypeExpr
end Rust

namespace Translate

open Rust (Item)
open TypeScript (Block Declaration Fragment)

/-! ## Types -/

/-- A mark of optionality holds no foreign types. -/
theorem foreigns_standalone (s : Slot) : s.standalone.foreigns = s.type.foreigns := by
  unfold Slot.standalone
  split <;> rfl

/-- A scalar without a counterpart is foreign. -/
theorem foreigns_scalar (name : String) :
    (scalar name).foreigns = (Rust.TypeExpr.primitive name).unmappedParts := by
  rw [scalar, Rust.TypeExpr.unmappedParts]
  cases Rust.scalars.lookup name <;> rfl

mutual

/-- The foreign types of a slot are the parts without a counterpart. The recursion is that on
types. -/
theorem foreigns_slot (t : Rust.TypeExpr) : (slot t).type.foreigns = t.unmappedParts := by
  cases t with
  | path name args =>
    cases args with
    | nil => rfl
    | cons arg args => exact foreigns_standaloneAll (arg :: args)
  | primitive name => exact foreigns_scalar name
  | option inner => exact foreigns_slot inner
  | sequence element => exact foreigns_type element
  | set element => exact (List.append_nil _).trans (foreigns_type element)
  | map key value =>
    exact congrArg₂ (· ++ ·) (foreigns_type key)
      ((List.append_nil _).trans (foreigns_type value))
  | tuple elements => exact foreigns_standaloneAll elements
  | verbatim text => rfl
  | unknown label => rfl

/-- **The foreign types of what a type is translated to** are its parts without counterpart. -/
theorem foreigns_type (t : Rust.TypeExpr) : (type t).foreigns = t.unmappedParts := by
  rw [type, foreigns_standalone, foreigns_slot]

/-- The same of lists of types. -/
theorem foreigns_standaloneAll (ts : List Rust.TypeExpr) :
    TypeScript.TypeExpr.foreignsAll (standaloneAll ts) = Rust.TypeExpr.unmappedPartsAll ts := by
  cases ts with
  | nil => rfl
  | cons t ts => exact congrArg₂ (· ++ ·) (foreigns_type t) (foreigns_standaloneAll ts)

end

/-! ## Items -/

section Items

variable (settings : Settings) (item : Item)

/-- The declaration that an item is written as, if it is written. -/
def declaration? : Option Declaration :=
  let facts := factsOfItem settings item
  match item.body with
  | .struct shape fields => some (struct facts item.name item.generics shape fields)
  | .enum variants => some (enum settings facts item.name item.generics variants)
  | .const t value => const? settings item.name t value
  | .typeAlias target => some (.typeAlias item.name item.generics (type target))
  | .bare => none

/-- The fragments of the text of an item; an item that is not exported has none. -/
def fragments : List Fragment :=
  if (factsOfItem settings item).exported then
    match declaration? settings item with
    | some d => (Block.mk item.preamble.docs d).fragments settings.ambient
    | none => []
  else []

/-- What is told of the type of an exported constant that is left out: its parts without
counterpart. -/
def leftOutParts : List String :=
  match item.body with
  | .const t value =>
    if (factsOfItem settings item).exported ∧ const? settings item.name t value = none then
      t.unmappedParts
    else []
  | _ => []

/-- The warnings about types without counterpart among findings. -/
def unmappedAmong (findings : List Finding) : List Finding :=
  findings.filter (·.code == "W002")

/-- The unmapped types of two lists of findings. -/
theorem unmappedAmong_append (as bs : List Finding) :
    unmappedAmong (as ++ bs) = unmappedAmong as ++ unmappedAmong bs := List.filter_append ..

/-- All findings about unmapped types are such. -/
theorem unmappedAmong_unmapped (name : String) (foreigns : List String) :
    unmappedAmong (unmapped name foreigns) = unmapped name foreigns := by
  refine List.filter_eq_self.2 fun finding hfinding => ?_
  obtain ⟨f, -, rfl⟩ := List.mem_map.1 hfinding
  rfl

/-- None about a skipped variant is. -/
theorem unmappedAmong_skippedVariants (name : String) (variants : List Rust.Variant) :
    unmappedAmong (skippedVariants name variants) = [] := by
  rw [unmappedAmong, skippedVariants, List.filter_map, List.map_eq_nil_iff, List.filter_eq_nil_iff]
  exact fun _ _ => by simp [Finding.code]

/-- An emission whose text is made up of fragments, and which warns about the types without
counterpart among them and about some more. -/
structure Tells (e : Emission) (name : String) (fs : List Fragment) (more : List String) :
    Prop where
  text : e.text = Fragment.concat fs
  warned : unmappedAmong e.findings = unmapped name (Fragment.occurrences fs ++ more)

/-- Nothing tells of nothing. -/
theorem tells_empty (name : String) : Tells Emission.empty name [] [] := ⟨rfl, rfl⟩

/-- A block tells of the foreign types in its fragments. -/
theorem tells_ofBlock (name : String) (docs : List String) (d : Declaration) :
    Tells (ofBlock settings name docs d) name ((Block.mk docs d).fragments settings.ambient)
      [] := by
  have hshows := (Block.mk docs d).shows_fragments settings.ambient
  refine ⟨hshows.text_eq.symm, ?_⟩
  rw [hshows.occurrences_eq, List.append_nil]
  exact unmappedAmong_unmapped name d.foreigns

/-- A constant that is left out has no text, but its type is told of. -/
theorem tells_ofLeftOut (name : String) (t : Rust.TypeExpr) (value : Option Rust.Expr) :
    Tells (ofLeftOut name t value) name [] t.unmappedParts := by
  refine ⟨rfl, ?_⟩
  rw [ofLeftOut, unmappedAmong_append, unmappedAmong_unmapped, foreigns_type]
  exact List.append_nil _

/-- **Each item** is written as its fragments. It is warned about the types without counterpart in
them, and about those in the type of a constant that is left out. -/
theorem tells_ofItem : Tells (ofItem settings item) item.name (fragments settings item)
    (leftOutParts settings item) := by
  cases hexported : (factsOfItem settings item).exported with
  | false =>
    have hparts : leftOutParts settings item = [] := by
      unfold leftOutParts
      split
      · rw [hexported, if_neg fun h => Bool.false_ne_true h.1]
      · rfl
    rw [ofItem, fragments, hparts, hexported]
    exact tells_empty item.name
  | true =>
    rw [ofItem, fragments, hexported]
    simp only [if_true]
    cases hbody : item.body with
    | struct shape fields =>
      simp only [exported, declaration?, leftOutParts, hbody]
      exact tells_ofBlock settings _ _ _
    | enum variants =>
      simp only [exported, declaration?, leftOutParts, hbody]
      have hblock := tells_ofBlock settings item.name item.preamble.docs
        (enum settings (factsOfItem settings item) item.name item.generics variants)
      refine ⟨String.empty_append.trans hblock.text, ?_⟩
      rw [Emission.findings_append, unmappedAmong_append, unmappedAmong_skippedVariants]
      exact hblock.warned
    | const t value =>
      simp only [exported, declaration?, leftOutParts, hbody, hexported, true_and]
      cases hconst : const? settings item.name t value with
      | none => exact tells_ofLeftOut item.name t value
      | some d => exact tells_ofBlock settings _ _ _
    | typeAlias target =>
      simp only [exported, declaration?, leftOutParts, hbody]
      exact tells_ofBlock settings _ _ _
    | bare =>
      simp only [exported, declaration?, leftOutParts, hbody]
      exact tells_empty item.name

end Items

/-! ## Whole runs -/

section Runs

variable (settings : Settings)

/-- The warnings about types without counterpart, one for each place where one is written. -/
def warnings (items : List Item) : List Finding :=
  items.flatMap fun item => unmapped item.name (Fragment.occurrences (fragments settings item))

/-- The fragments of a run behind the line that marks its text. -/
def runFragments (items : List Item) : List Fragment :=
  .own (marker ++ "\n") :: items.flatMap (fragments settings)

/-- The fragments of a file are its text. -/
theorem concat_runFragments (items : List Item) :
    Fragment.concat (runFragments settings items) = (translate settings items).text := by
  have hitems : Fragment.Shows (items.flatMap (fragments settings))
      (Text.concat (items.map fun item => (ofItem settings item).text))
      (items.flatMap fun item => Fragment.occurrences (fragments settings item)) :=
    .flatMap fun item _ => ⟨(tells_ofItem settings item).text.symm, rfl⟩
  rw [text_translate]
  exact (hitems.before (marker ++ "\n")).text_eq

/-- The unmapped types that a file reports are those in its fragments, and those of the constants
that are left out. -/
theorem unmappedAmong_translate (items : List Item) :
    unmappedAmong (translate settings items).findings = items.flatMap fun item =>
      unmapped item.name
        (Fragment.occurrences (fragments settings item) ++ leftOutParts settings item) := by
  rw [findings_translate, unmappedAmong, List.filter_flatMap]
  exact List.flatMap_congr fun item _ => (tells_ofItem settings item).warned

/-- Lists that are put together of parts are longer if one of the parts has something behind it. -/
theorem flatMap_append_eq_iff {α β : Type} {f g : α → List β} {as : List α} :
    as.flatMap (fun a => f a ++ g a) = as.flatMap f ↔ ∀ a ∈ as, g a = [] := by
  constructor
  · intro h
    have hlength : (as.map fun a => (g a).length).sum = 0 := by
      have hlengths := congrArg List.length h
      simp only [List.length_flatMap, List.length_append, List.sum_map_add] at hlengths
      omega
    intro a ha
    have hzero := List.sum_eq_zero_iff_forall_eq_nat.1 hlength _ (List.mem_map_of_mem ha)
    exact List.length_eq_zero_iff.1 hzero
  · intro h
    exact List.flatMap_congr fun a ha => by rw [h a ha, List.append_nil]

/-- **What is warned about in a run.** What a type is translated to holds the parts without
counterpart of the type, each once. The text of a run is made up of fragments that mark the places
of such parts, and there is one warning for each of them, under the name of its declaration; and
there is one for each such part in the type of an exported constant that is left out. So the
warnings are those of the text if and only if no constant of such a type is left out. -/
theorem translate_unmapped (items : List Item) :
    (∀ t, Fragment.occurrences (type t).fragments = t.unmappedParts) ∧
    Fragment.concat (runFragments settings items) = (translate settings items).text ∧
    unmappedAmong (translate settings items).findings = (items.flatMap fun item =>
      unmapped item.name
        (Fragment.occurrences (fragments settings item) ++ leftOutParts settings item)) ∧
    (unmappedAmong (translate settings items).findings = warnings settings items ↔
      ∀ item ∈ items, leftOutParts settings item = []) := by
  refine ⟨fun t => ?_, concat_runFragments settings items, unmappedAmong_translate settings items,
    ?_⟩
  · rw [(type t).shows_fragments.occurrences_eq, foreigns_type]
  · have hunmapped (item : Item) : unmapped item.name
        (Fragment.occurrences (fragments settings item) ++ leftOutParts settings item) =
          unmapped item.name (Fragment.occurrences (fragments settings item)) ++
            unmapped item.name (leftOutParts settings item) := List.map_append
    rw [unmappedAmong_translate, warnings]
    simp only [hunmapped]
    rw [flatMap_append_eq_iff]
    simp only [unmapped, List.map_eq_nil_iff]

/-- A constant of a function type that is no literal has no text, and its type is warned about. -/
example :
    let item : Item := ⟨"X", [], ⟨[], [⟨"tsync", []⟩]⟩, .const (.verbatim "fn()") (some (.raw "f"))⟩
    (translate .default [item]).text = marker ++ "\n" ∧
      (translate .default [item]).findings =
        [.unmappedType "fn()" "X", .untranslatedConst "X" "f"] := by decide

end Runs

end Translate
end Ferrotype

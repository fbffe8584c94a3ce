/-
# Constants and their types

The type and the value of a constant are translated apart from each other. `TypeExpr.admits` says
which values a type has, `PlainExpr.value` what a literal expression stands for, and `Fits` which
literal expressions have a plain type; the value of such an expression is one of the type that is
written (`admits_of_fits`).

`reads_const_fits` says what is written as the value: what the expression stands for, unless a
literal of bytes or a tuple of one element stands in it. Bytes are written as text and such a tuple
as its element, and neither has to be a value of the type.
-/

import Ferrotype.Proofs.Rust.Canonical.Declaration
import Ferrotype.Proofs.Rust.Plain.Expr
import Ferrotype.Translate.Item

namespace Ferrotype

/-! ## The values of a type -/

namespace TypeScript

/-- The name of the type that a value other than an array has. -/
def Value.typeName? : Value → Option String
  | null => some "null"
  | .string _ => some "string"
  | number _ _ => some "number"
  | word text => if text = "true" ∨ text = "false" then some "boolean" else none
  | array _ => none

namespace TypeExpr

mutual

/-- Whether a value is one of a type: an array has values of its type as elements, and a tuple one
value for each of its types. -/
def admits : TypeExpr → Value → Bool
  | .name text, v => v.typeName? == some text
  | orNull inner, v => v.typeName? == some "null" || inner.admits v
  | array element, .array vs => vs.all fun v => element.admits v
  | tuple elements, .array vs => admitsEach elements vs
  | _, _ => false

/-- Whether values are of types, one by one. -/
def admitsEach : List TypeExpr → List Value → Bool
  | [], [] => true
  | t :: ts, v :: vs => t.admits v && admitsEach ts vs
  | _, _ => false

end

end TypeExpr

namespace Value

mutual

/-- The number of values in a value. -/
def size : Value → Nat
  | array elements => sizeAll elements + 1
  | _ => 1

/-- The number of values in values. -/
def sizeAll : List Value → Nat
  | [] => 0
  | v :: vs => v.size + sizeAll vs

end

end Value

end TypeScript

/-! ## The values of plain expressions -/

namespace Rust

open TypeScript (Value)

/-- A byte as a number. -/
def byteValue (c : Char) : Value := .number false (toString c.toNat)

namespace PlainExpr

mutual

/-- What a literal expression stands for. -/
def value : PlainExpr → Value
  | number negative text => .number negative (Numeral.plain text)
  | bool b => .word (truthWord b)
  | char isByte text =>
    if isByte then byteValue ((denoted text).toList.headD '\x00') else .string (denoted text)
  | string isBytes text =>
    if isBytes then .array ((denoted text).toList.map byteValue) else .string (denoted text)
  | absent _ => .null
  | unit => .null
  | reference operand => operand.value
  | array elements _ => .array (valueAll elements)
  | tuple elements _ => .array (valueAll elements)

/-- What literal expressions stand for. -/
def valueAll : List PlainExpr → List Value
  | [] => []
  | e :: es => e.value :: valueAll es

end

mutual

/-- Whether no literal of bytes and no tuple of one element stands in an expression. -/
def isKept : PlainExpr → Bool
  | char isByte _ => !isByte
  | string isBytes _ => !isBytes
  | reference operand => operand.isKept
  | array elements _ => isKeptAll elements
  | tuple elements _ => elements.length != 1 && isKeptAll elements
  | _ => true

/-- Whether none of them stands in expressions. -/
def isKeptAll : List PlainExpr → Bool
  | [] => true
  | e :: es => e.isKept && isKeptAll es

end

end PlainExpr

mutual

/-- The types of literal expressions. References do not count, on either side. -/
inductive Fits : PlainExpr → PlainType → Prop
  | number {negative : Bool} {text name : String} (hname : name ∈ numberScalars) :
    Fits (.number negative text) (.scalar name)
  | bool {b : Bool} : Fits (.bool b) (.scalar "bool")
  | char {text : String} : Fits (.char false text) (.scalar "char")
  | byte {text : String} : Fits (.char true text) (.scalar "u8")
  | string {text : String} : Fits (.string false text) (.scalar "str")
  | bytes {text : String} {length : List Piece} :
    Fits (.string true text) (.array (.scalar "u8") length)
  | byteSlice {text : String} : Fits (.string true text) (.slice (.scalar "u8"))
  | absent {path : List String} {inner : PlainType} : Fits (.absent path) (.option inner)
  | unit : Fits .unit .unit
  | array {elements : List PlainExpr} {trailing : Bool} {t : PlainType} {length : List Piece}
    (helements : FitsAll elements t) : Fits (.array elements trailing) (.array t length)
  | slice {elements : List PlainExpr} {trailing : Bool} {t : PlainType}
    (helements : FitsAll elements t) : Fits (.array elements trailing) (.slice t)
  | tuple {elements : List PlainExpr} {types : List PlainType} {trailing trailing' : Bool}
    (helements : FitsEach elements types) : Fits (.tuple elements trailing) (.tuple types trailing')
  | referenceTo {e : PlainExpr} {lifetime : Option String} {isMut : Bool} {t : PlainType}
    (h : Fits e t) : Fits e (.reference lifetime isMut t)
  | reference {e : PlainExpr} {t : PlainType} (h : Fits e t) : Fits (.reference e) t

/-- Literal expressions of one type. -/
inductive FitsAll : List PlainExpr → PlainType → Prop
  | nil {t : PlainType} : FitsAll [] t
  | cons {e : PlainExpr} {es : List PlainExpr} {t : PlainType} (h : Fits e t)
    (hs : FitsAll es t) : FitsAll (e :: es) t

/-- Literal expressions of one type each. -/
inductive FitsEach : List PlainExpr → List PlainType → Prop
  | nil : FitsEach [] []
  | cons {e : PlainExpr} {es : List PlainExpr} {t : PlainType} {ts : List PlainType}
    (h : Fits e t) (hs : FitsEach es ts) : FitsEach (e :: es) (t :: ts)

end

end Rust

namespace Translate

open Rust (Fits FitsAll FitsEach PlainExpr PlainType Preamble plainConst)
open TypeScript (Value)

/-! ## Values and types agree -/

/-- The scalars with a number are numbers. -/
theorem type_number {name : String} (h : name ∈ Rust.numberScalars) :
    type (.primitive name) = .name "number" := by
  have hnumbers : ∀ name ∈ Rust.numberScalars, Rust.scalars.lookup name = some "number" := by
    decide
  have hscalar : type (.primitive name) = scalar name := rfl
  rw [hscalar, scalar, hnumbers name h]

/-- Bytes are values of the type of an array of numbers. -/
theorem all_admits_byteValue (cs : List Char) :
    (cs.map Rust.byteValue).all (TypeScript.TypeExpr.name "number").admits := by
  rw [List.all_map, List.all_eq_true]
  exact fun _ _ => rfl

mutual

/-- **What a literal expression stands for is a value of the type that is written.** -/
theorem admits_of_fits : ∀ {e : PlainExpr} {t : PlainType}, Fits e t →
    (type t.sorted).admits e.value
  | _, _, .number hname => by
    rw [PlainType.sorted, type_number hname]
    rfl
  | .bool b, _, .bool => by cases b <;> rfl
  | _, _, .char => rfl
  | _, _, .byte => rfl
  | _, _, .string => rfl
  | _, _, .bytes => all_admits_byteValue _
  | _, _, .byteSlice => all_admits_byteValue _
  | _, _, .absent => rfl
  | _, _, .unit => rfl
  | _, _, .array helements => List.all_eq_true.2 (admits_of_fitsAll helements)
  | _, _, .slice helements => List.all_eq_true.2 (admits_of_fitsAll helements)
  | _, _, .tuple helements => admits_of_fitsEach helements
  | _, _, .referenceTo h => by
    have htarget := admits_of_fits h
    exact htarget
  | _, _, .reference h => by
    have hoperand := admits_of_fits h
    exact hoperand

/-- The members of a sequence are admitted by the type of its elements. -/
theorem admits_of_fitsAll : ∀ {es : List PlainExpr} {t : PlainType}, FitsAll es t →
    ∀ v ∈ PlainExpr.valueAll es, (type t.sorted).admits v
  | _, _, .nil => List.forall_mem_nil _
  | _, _, .cons h hs => List.forall_mem_cons.2 ⟨admits_of_fits h, admits_of_fitsAll hs⟩

/-- The members of a tuple are admitted by the types at their places. -/
theorem admits_of_fitsEach : ∀ {es : List PlainExpr} {ts : List PlainType}, FitsEach es ts →
    TypeScript.TypeExpr.admitsEach (standaloneAll (PlainType.sortedAll ts)) (PlainExpr.valueAll es)
  | _, _, .nil => rfl
  | _, _, .cons h hs => Bool.and_eq_true_iff.2 ⟨admits_of_fits h, admits_of_fitsEach hs⟩

end

/-! ## What is written -/

mutual

/-- The value that is written for a literal expression. It is not larger than what the expression
stands for, since only tuples of one element lose something. -/
theorem exists_value? (e : PlainExpr) (h : e.isWritable) :
    ∃ v, value? e.read = some v ∧ v.size ≤ e.value.size ∧ (v = e.value ↔ e.isKept) := by
  match e with
  | .number negative text =>
    cases negative <;> exact ⟨_, rfl, Nat.le_refl _, iff_of_true rfl rfl⟩
  | .bool b => exact ⟨_, rfl, Nat.le_refl _, iff_of_true rfl rfl⟩
  | .char isByte text =>
    cases isByte with
    | false => exact ⟨_, rfl, Nat.le_refl _, iff_of_true rfl rfl⟩
    | true => exact ⟨_, rfl, Nat.le_refl _, iff_of_false Value.noConfusion Bool.false_ne_true⟩
  | .string isBytes text =>
    cases isBytes with
    | false => exact ⟨_, rfl, Nat.le_refl _, iff_of_true rfl rfl⟩
    | true =>
      refine ⟨_, rfl, ?_, iff_of_false Value.noConfusion Bool.false_ne_true⟩
      exact Nat.le_add_left _ _
  | .absent path =>
    have hpaths : ∀ path ∈ Rust.absentPaths, nonePaths.contains (Rust.pathText path) := by decide
    refine ⟨.null, ?_, Nat.le_refl _, iff_of_true rfl rfl⟩
    rw [PlainExpr.read, value?, if_pos (hpaths path (List.contains_iff_mem.1 h))]
  | .unit => exact ⟨_, rfl, Nat.le_refl _, iff_of_true rfl rfl⟩
  | .reference operand =>
    rw [PlainExpr.isWritable] at h
    exact exists_value? operand h
  | .array elements trailing =>
    rw [PlainExpr.isWritable, Bool.and_eq_true] at h
    obtain ⟨vs, hvs, hsize, hkept⟩ := exists_values? elements h.2
    refine ⟨.array vs, ?_, Nat.add_le_add_right hsize 1, ?_⟩
    · rw [PlainExpr.read, value?, hvs]
      rfl
    · rw [PlainExpr.value, PlainExpr.isKept, ← hkept, Value.array.injEq]
  | .tuple [] trailing =>
    rw [PlainExpr.isWritable] at h
    cases h
  | .tuple [element] trailing =>
    rw [PlainExpr.isWritable, PlainExpr.isWritableAll, Bool.and_eq_true,
      Bool.and_eq_true (element.isWritable)] at h
    obtain ⟨v, hv, hsize, -⟩ := exists_value? element h.2.1
    refine ⟨v, hv, Nat.le_trans hsize (Nat.le_trans (Nat.le_add_right _ _) (Nat.le_succ _)),
      iff_of_false (fun heq => ?_) Bool.false_ne_true⟩
    -- What is written is no larger than the element alone, so it is not the tuple.
    rw [heq, PlainExpr.value, PlainExpr.valueAll, PlainExpr.valueAll, Value.size, Value.sizeAll,
      Value.sizeAll] at hsize
    omega
  | .tuple (first :: second :: more) trailing =>
    rw [PlainExpr.isWritable, Bool.and_eq_true] at h
    obtain ⟨vs, hvs, hsize, hkept⟩ := exists_values? (first :: second :: more) h.2
    refine ⟨.array vs, ?_, Nat.add_le_add_right hsize 1, ?_⟩
    · have hread : (PlainExpr.tuple (first :: second :: more) trailing).read =
          .tuple (PlainExpr.readAll (first :: second :: more)) := rfl
      rw [hread, PlainExpr.readAll, value?, ← PlainExpr.readAll, hvs]
      rfl
    · have hmany : (first :: second :: more).length != 1 := by simp
      rw [PlainExpr.value, PlainExpr.isKept, hmany, Bool.true_and, ← hkept, Value.array.injEq]

/-- Lists of literals have values of at most their size, and these are the values denoted exactly if
all are kept. The recursion is that on expressions. -/
theorem exists_values? (es : List PlainExpr) (h : PlainExpr.isWritableAll es) :
    ∃ vs, values? (PlainExpr.readAll es) = some vs ∧
      Value.sizeAll vs ≤ Value.sizeAll (PlainExpr.valueAll es) ∧
      (vs = PlainExpr.valueAll es ↔ PlainExpr.isKeptAll es) := by
  cases es with
  | nil => exact ⟨[], rfl, Nat.le_refl _, by simp [PlainExpr.valueAll, PlainExpr.isKeptAll]⟩
  | cons e es =>
    rw [PlainExpr.isWritableAll, Bool.and_eq_true] at h
    obtain ⟨v, hv, hsize, hkept⟩ := exists_value? e h.1
    obtain ⟨vs, hvs, hsizes, hkepts⟩ := exists_values? es h.2
    refine ⟨v :: vs, ?_, ?_, ?_⟩
    · rw [PlainExpr.readAll, values?, hv, hvs]
      rfl
    · rw [PlainExpr.valueAll, Value.sizeAll, Value.sizeAll]
      exact Nat.add_le_add hsize hsizes
    · rw [PlainExpr.valueAll, List.cons.injEq, hkept, hkepts, PlainExpr.isKeptAll,
        Bool.and_eq_true]

end

/-- An exported constant with a value gives one block, in an output that is not ambient. -/
theorem ofItem_plainConst {settings : Settings} (hambient : settings.ambient = false)
    {p : Preamble} (hexported : Serde.hasAttribute settings.marker p.attributes) (name : String)
    {t : PlainType} {e : PlainExpr} {v : Value} (hv : value? e.read = some v) :
    ofItem settings (plainConst p name t e) =
      ofBlock settings name p.docs (.const name (type t.sorted) v) := by
  have hconst : const? settings name t.sorted (some e.read) =
      some (.const name (type t.sorted) v) := by
    rw [const?, hambient, if_neg Bool.false_ne_true, Option.bind_some, hv]
    rfl
  have hfacts : (factsOfItem settings (plainConst p name t e)).exported = true := hexported
  rw [ofItem]
  simp only [hfacts, if_true]
  rw [exported]
  simp only [plainConst, hconst]

/-- The text of such a constant. -/
theorem text_plainConst {settings : Settings} (hambient : settings.ambient = false) {p : Preamble}
    (hexported : Serde.hasAttribute settings.marker p.attributes) (name : String) {t : PlainType}
    {e : PlainExpr} {v : Value} (hv : value? e.read = some v) :
    (ofItem settings (plainConst p name t e)).text = "\n" ++ TypeScript.renderComment 0 p.docs ++
      ("export const " ++ name ++ ": " ++ (type t.sorted).render ++ " = " ++ v.render ++
        ";\n") := by
  rw [ofItem_plainConst hambient hexported name hv, ofBlock, hambient]
  rfl

/-- **A constant whose value is a literal expression of its type** is read from its pieces, and
written with a type that has the value which the expression stands for. That value is what is
written if and only if no literal of bytes and no tuple of one element stands in the expression. -/
theorem reads_const_fits {settings : Settings} (hambient : settings.ambient = false)
    {p : Preamble} (hexported : Serde.hasAttribute settings.marker p.attributes) (name : String)
    {t : PlainType} (ht : t.isWritable) {e : PlainExpr} (he : e.isWritable) (hfits : Fits e t)
    (eof : Rust.Token) (rest : List Rust.Piece) :
    Rust.Reads (Rust.parseConst eof p) (Rust.plainConstPieces name t e ++ rest)
        (plainConst p name t e) rest ∧
      ∃ v, (ofItem settings (plainConst p name t e)).text =
          "\n" ++ TypeScript.renderComment 0 p.docs ++ ("export const " ++ name ++ ": " ++
            (type t.sorted).render ++ " = " ++ v.render ++ ";\n") ∧
        (type t.sorted).admits e.value ∧ (v = e.value ↔ e.isKept) := by
  obtain ⟨v, hv, -, hkept⟩ := exists_value? e he
  exact ⟨Rust.reads_plainConst eof p name ht he rest, v,
    text_plainConst hambient hexported name hv, admits_of_fits hfits, hkept⟩

/-- The preamble of a constant that is exported under the default marker. -/
def exportPreamble : Preamble := ⟨[], [⟨Settings.defaultMarker, []⟩]⟩

/-- The type `(u8,)`. -/
def singleType : PlainType := .tuple [.scalar "u8"] true

/-- The expression `(1,)`. -/
def singleTuple : PlainExpr := .tuple [.number false "1"] true

/-- The value of `const X: (u8,) = (1,);` is written as a number, which is no tuple. -/
theorem reads_const_singleTuple :
    Fits singleTuple singleType ∧
      Rust.Reads (Rust.parseConst (.eof .start) exportPreamble)
        (Rust.plainConstPieces "X" singleType singleTuple ++ [])
        (plainConst exportPreamble "X" singleType singleTuple) [] ∧
      (ofItem default (plainConst exportPreamble "X" singleType singleTuple)).text =
        "\nexport const X: [number] = 1;\n" ∧
      (type singleType.sorted).admits (.number false "1") = false ∧
      (type singleType.sorted).admits singleTuple.value ∧ singleTuple.isKept = false := by
  have hfits : Fits singleTuple singleType := .tuple (.cons (.number (by decide)) .nil)
  have hambient : (default : Settings).ambient = false := rfl
  have hexported : Serde.hasAttribute (default : Settings).marker exportPreamble.attributes := by
    decide
  obtain ⟨hreads, v, -, hadmits, -⟩ := reads_const_fits hambient hexported "X"
    (by decide) (by decide) hfits (.eof .start) []
  exact ⟨hfits, hreads, by decide, by decide, hadmits, by decide⟩

end Translate
end Ferrotype

/-
# Translating types

An optional type marks the place where it stands: a property gets a question mark for it. In places
that cannot be marked, such as the arguments of a collection, it becomes a union with `null`.
Options of options are one.
-/

import Ferrotype.Rust.Type
import Ferrotype.TypeScript.Type

namespace Ferrotype
namespace Translate

/-- A type for a place that may be marked as optional. -/
structure Slot where
  type : TypeScript.TypeExpr
  optional : Bool
deriving Repr, BEq, Inhabited

/-- The type for a place that cannot be marked. -/
def Slot.standalone (s : Slot) : TypeScript.TypeExpr :=
  if s.optional then .orNull s.type else s.type

/-- A scalar; one that is not in the table is foreign. -/
def scalar (name : String) : TypeScript.TypeExpr :=
  match Rust.scalars.lookup name with
  | some text => .name text
  | none => .foreign name name

mutual

/-- A type for a place that may be marked as optional. -/
def slot : Rust.TypeExpr → Slot
  | .option inner => ⟨(slot inner).type, true⟩
  | .sequence element => ⟨.array (slot element).standalone, false⟩
  | .set element => ⟨.apply "Set" [(slot element).standalone], false⟩
  | .map key value => ⟨.apply "Record" [(slot key).standalone, (slot value).standalone], false⟩
  | .tuple elements => ⟨.tuple (standaloneAll elements), false⟩
  | .primitive name => ⟨scalar name, false⟩
  | .path name [] => ⟨.name name, false⟩
  | .path name (arg :: args) =>
    ⟨.apply name ((slot arg).standalone :: standaloneAll args), false⟩
  | .verbatim text => ⟨.foreign text text, false⟩
  | .unknown label => ⟨.foreign label "unknown", false⟩

/-- Types for places that cannot be marked. -/
def standaloneAll : List Rust.TypeExpr → List TypeScript.TypeExpr
  | [] => []
  | type :: types => (slot type).standalone :: standaloneAll types

end

/-- A type for a place that cannot be marked. -/
def type (t : Rust.TypeExpr) : TypeScript.TypeExpr := (slot t).standalone

/-- The members of a list stand alone one by one. -/
@[simp] theorem standaloneAll_eq_map (types : List Rust.TypeExpr) :
    standaloneAll types = types.map type := by
  induction types with
  | nil => rfl
  | cons t types ih => simp [standaloneAll, ih, type]

end Translate
end Ferrotype

/-
# Reading items

Structs, enums, constants and type aliases are read in full, with the preamble before them.
Visibility and where clauses leave no trace. Every other item is skipped: up to a semicolon, or
through its first group of braces.

The members of a struct or an enum are separated by commas; the last comma is optional.
-/

import Ferrotype.Rust.Parse.Attribute
import Ferrotype.Rust.Parse.Expr
import Ferrotype.Rust.Parse.Generics
import Ferrotype.Rust.Parse.Type
import Ferrotype.Rust.Tokenize

namespace Ferrotype
namespace Rust

/-! ## What leaves no trace -/

/-- The tokens without `pub` and the group that may follow it. -/
def dropVisibility : List Token → List Token
  | [] => []
  | t :: ts =>
    if t.kind = .pub then if headKind ts = .lparen then dropUnit ts else ts else t :: ts

/-- No more is left behind a visibility. -/
theorem length_dropVisibility_le (ts : List Token) :
    (dropVisibility ts).length ≤ ts.length := by
  fun_cases dropVisibility ts with
  | case1 => simp
  | case2 t ts => exact Nat.le_succ_of_le (length_dropUnit_le ts)
  | case3 => simp
  | case4 => simp

/-- What is left after an item that is skipped. -/
def dropItem : List Token → List Token
  | [] => []
  | t :: ts =>
    if t.kind = .semicolon then ts
    else if t.kind = .lbrace then dropIf .semicolon (dropUnit (t :: ts))
    else if t.kind.closes then ts
    else dropItem (dropUnit (t :: ts))
termination_by ts => ts.length
decreasing_by exact length_dropUnit_lt t ts

/-- No more is left behind an item that is skipped. -/
theorem length_dropItem_le (ts : List Token) : (dropItem ts).length ≤ ts.length := by
  fun_induction dropItem ts with
  | case1 => simp
  | case2 => simp
  | case3 t ts => exact Nat.le_trans (length_dropIf_le _ _) (length_dropUnit_le _)
  | case4 => simp
  | case5 t ts _ _ _ ih => exact Nat.le_trans ih (length_dropUnit_le _)

/-- Less is left if there was a token. -/
theorem length_dropItem_lt (t : Token) (ts : List Token) :
    (dropItem (t :: ts)).length < (t :: ts).length := by
  have hunit := length_dropUnit_lt t ts
  rw [dropItem]
  split
  · simp
  · split
    · exact Nat.lt_of_le_of_lt (length_dropIf_le _ _) hunit
    · split
      · simp
      · exact Nat.lt_of_le_of_lt (length_dropItem_le _) hunit

/-! ## Members -/

section Members

variable {α : Type} (eof : Token) (closer : Kind) (separator : α → Place)
  (member : Preamble → (ts : List Token) → Result (Parsed α ts.length))

/-- Members up to the closing bracket. Each is read with the preamble before it; a preamble with no
member after it is dropped. -/
def members [Text.StandIn] (ts : List Token) : Result (Parsed (List α) ts.length) :=
  match ts with
  | [] => .error (.expected closer eof .plain)
  | t :: rest =>
    if t.kind = closer then .ok (.past [] t rest)
    else do
      let p ← preamble eof (t :: rest)
      have hp := Nat.le_of_lt_succ p.shorter
      if headKind p.rest = closer then
        .ok ⟨[], p.rest.drop 1, length_drop_one_lt hp⟩
      else
        let m ← member p.value p.rest
        match hrest : m.rest with
        | [] => .error (.expected .comma eof (separator m.value))
        | u :: us =>
          have hle : (u :: us).length ≤ (t :: rest).length := by
            rw [← hrest]
            exact Nat.le_trans (Nat.le_of_lt m.shorter) hp
          if u.kind = .comma then
            let more ← members us
            .ok ((more.map (m.value :: ·)).later.widen hle)
          else if u.kind = closer then .ok ((Parsed.past [m.value] u us).widen hle)
          else .error (.expected .comma u (separator m.value))
termination_by ts.length
decreasing_by exact hle

end Members

/-- A field with a name. -/
def namedField (eof : Token) (p : Preamble) (ts : List Token) :
    Result (Parsed Field ts.length) := do
  let name ← expect eof .identifier .fieldName (dropVisibility ts)
  let colon ← expect eof .colon (.afterField name.value.text) name.rest
  let type ← parseType eof colon.rest
  .ok ⟨⟨some name.value.text, type.value, p⟩, type.rest, by
    have h₁ := name.shorter
    have h₂ := colon.shorter
    have h₃ := type.shorter
    have h₄ := length_dropVisibility_le ts
    omega⟩

/-- A field of a tuple. -/
def tupleField (eof : Token) (p : Preamble) (ts : List Token) :
    Result (Parsed Field ts.length) := do
  let type ← parseType eof (dropVisibility ts)
  .ok ((type.map (⟨none, ·, p⟩)).widen (length_dropVisibility_le ts))

/-- The fields in braces, behind the opening one. -/
def namedFields [Text.StandIn] (eof : Token) (ts : List Token) :
    Result (Parsed (List Field) ts.length) :=
  members eof .rbrace (fun field => .afterField (field.name.getD "")) (namedField eof) ts

/-- The fields in parentheses, behind the opening one. -/
def tupleFields [Text.StandIn] (eof : Token) (ts : List Token) :
    Result (Parsed (List Field) ts.length) :=
  members eof .rparen (fun _ => .betweenTupleFields) (tupleField eof) ts

/-- The form of a variant with its fields, behind its name. -/
def variantFields [Text.StandIn] (eof : Token) (ts : List Token) :
    Result (Parsed (VariantShape × List Field) (ts.length + 1)) :=
  match ts with
  | [] => .ok (.before (.unit, []) [])
  | t :: rest =>
    if t.kind = .lbrace then do
      let fields ← namedFields eof rest
      .ok (fields.map (VariantShape.named, ·)).later.later
    else if t.kind = .lparen then do
      let fields ← tupleFields eof rest
      .ok (fields.map (VariantShape.tuple, ·)).later.later
    else .ok (.before (.unit, []) (t :: rest))

/-- Whether a token ends a discriminant. -/
def endsDiscriminant (kind : Kind) : Bool := kind == .comma || kind == .rbrace

/-- The discriminant of a variant, if it has one, as text. -/
def discriminant : List Token → Option String × List Token
  | [] => (none, [])
  | t :: ts =>
    if t.kind = .eq then
      (some (textOf (rawSpan endsDiscriminant 0 ts).1), (rawSpan endsDiscriminant 0 ts).2)
    else (none, t :: ts)

/-- No more is left behind a discriminant. -/
theorem length_discriminant_le (ts : List Token) : (discriminant ts).2.length ≤ ts.length := by
  fun_cases discriminant ts with
  | case1 => simp
  | case2 t ts => exact Nat.le_succ_of_le (length_rawSpan_le _ _ _)
  | case3 => simp

/-- A variant. -/
def variant [Text.StandIn] (eof : Token) (enumName : String) (p : Preamble) (ts : List Token) :
    Result (Parsed Variant ts.length) := do
  let name ← expect eof .identifier (.variantOf enumName) ts
  let fields ← variantFields eof name.rest
  .ok ⟨⟨name.value.text, fields.value.1, fields.value.2, (discriminant fields.rest).1, p⟩,
    (discriminant fields.rest).2, by
      have h₁ := name.shorter
      have h₂ := fields.shorter
      have h₃ := length_discriminant_le fields.rest
      omega⟩

/-! ## Items -/

/-- The form of a struct with its fields, behind its generics. -/
def structBody [Text.StandIn] (eof : Token) (name : String) (ts : List Token) :
    Result (Parsed Body (ts.length + 1)) :=
  match ts with
  | [] => .error (.expected .semicolon eof (.afterUnitStruct name))
  | t :: rest =>
    if t.kind = .lbrace then do
      let fields ← namedFields eof rest
      .ok (fields.map (Body.struct .named)).later.later
    else if t.kind = .lparen then do
      let fields ← tupleFields eof rest
      let closing ← expect eof .semicolon (.afterTupleStruct name) (dropWhere fields.rest)
      .ok ⟨.struct .tuple fields.value, closing.rest, by
        have h₁ := fields.shorter
        have h₂ := length_dropWhere_le fields.rest
        have h₃ := closing.shorter
        simp only [List.length_cons]
        omega⟩
    else do
      let closing ← expect eof .semicolon (.afterUnitStruct name) (t :: rest)
      .ok (closing.map fun _ => Body.struct .unit []).later

/-- A struct behind its keyword. -/
def parseStruct [Text.StandIn] (eof : Token) (p : Preamble) (ts : List Token) :
    Result (Parsed Item ts.length) := do
  let name ← expect eof .identifier .structName ts
  let params ← generics eof name.rest
  let body ← structBody eof name.value.text (dropWhere params.rest)
  .ok ⟨⟨name.value.text, params.value, p, body.value⟩, body.rest, by
    have h₁ := name.shorter
    have h₂ := params.shorter
    have h₃ := body.shorter
    have h₄ := length_dropWhere_le params.rest
    omega⟩

/-- An enum behind its keyword. -/
def parseEnum [Text.StandIn] (eof : Token) (p : Preamble) (ts : List Token) :
    Result (Parsed Item ts.length) := do
  let name ← expect eof .identifier .enumName ts
  let params ← generics eof name.rest
  let opening ← expect eof .lbrace (.openingEnum name.value.text) (dropWhere params.rest)
  let variants ← members eof .rbrace (fun v : Variant => .afterVariant v.name)
    (variant eof name.value.text) opening.rest
  .ok ⟨⟨name.value.text, params.value, p, .enum variants.value⟩, variants.rest, by
    have h₁ := name.shorter
    have h₂ := params.shorter
    have h₃ := opening.shorter
    have h₄ := variants.shorter
    have h₅ := length_dropWhere_le params.rest
    omega⟩

/-- The value of a constant behind `=`: an expression if a semicolon follows it, otherwise the
text up to the semicolon. -/
def initializer [Text.StandIn] (eof : Token) (ts : List Token) :
    Result (Parsed Expr (ts.length + 1)) := do
  let e ← parseExpr eof ts
  if headKind e.rest = .semicolon then .ok e
  else .ok ⟨.raw (textOf (rawSpan (· == .semicolon) 0 ts).1), (rawSpan (· == .semicolon) 0 ts).2,
    Nat.lt_succ_of_le (length_rawSpan_le _ _ _)⟩

/-- The value of a constant, if it has one. -/
def constValue [Text.StandIn] (eof : Token) (ts : List Token) :
    Result (Parsed (Option Expr) (ts.length + 1)) :=
  match ts with
  | [] => .ok (.before none [])
  | t :: rest =>
    if t.kind = .eq then do
      let e ← initializer eof rest
      .ok (e.map some).later
    else .ok (.before none (t :: rest))

/-- A constant behind its keyword. -/
def parseConst [Text.StandIn] (eof : Token) (p : Preamble) (ts : List Token) :
    Result (Parsed Item ts.length) := do
  let name ← expect eof .identifier .constName ts
  let colon ← expect eof .colon (.afterConst name.value.text) name.rest
  let type ← parseType eof colon.rest
  let value ← constValue eof type.rest
  let closing ← expect eof .semicolon (.afterConst name.value.text) value.rest
  .ok ⟨⟨name.value.text, [], p, .const type.value value.value⟩, closing.rest, by
    have h₁ := name.shorter
    have h₂ := colon.shorter
    have h₃ := type.shorter
    have h₄ := value.shorter
    have h₅ := closing.shorter
    omega⟩

/-- A type alias behind its keyword. -/
def parseAlias (eof : Token) (p : Preamble) (ts : List Token) : Result (Parsed Item ts.length) := do
  let name ← expect eof .identifier .aliasName ts
  let params ← generics eof name.rest
  let eq ← expect eof .eq (.inAlias name.value.text) (dropWhere params.rest)
  let type ← parseType eof eq.rest
  let closing ← expect eof .semicolon (.afterAlias name.value.text) type.rest
  .ok ⟨⟨name.value.text, params.value, p, .typeAlias type.value⟩, closing.rest, by
    have h₁ := name.shorter
    have h₂ := params.shorter
    have h₃ := eq.shorter
    have h₄ := type.shorter
    have h₅ := closing.shorter
    have h₆ := length_dropWhere_le params.rest
    omega⟩

/-- The item that starts with a token, if that is the keyword of one. -/
def parseItem [Text.StandIn] (eof : Token) (p : Preamble) (t : Token) (ts : List Token) :
    Result (Option (Parsed Item ts.length)) :=
  if t.kind = .struct then (parseStruct eof p ts).map some
  else if t.kind = .enum then (parseEnum eof p ts).map some
  else if t.kind = .const ∧ headKind ts = .identifier then (parseConst eof p ts).map some
  else if t.kind = .type then (parseAlias eof p ts).map some
  else .ok none

/-- The items of a source. -/
def parseItems [Text.StandIn] (eof : Token) (ts : List Token) : Result (List Item) :=
  match ts with
  | [] => .ok []
  | t :: rest =>
    if t.kind = .hash ∧ headKind rest = .bang then parseItems eof (dropUnit (rest.drop 1))
    else do
      let p ← preamble eof (t :: rest)
      match hbody : dropVisibility p.rest with
      | [] => .ok []
      | u :: us =>
        have hle : us.length + 1 ≤ (t :: rest).length := by
          have h₁ := Nat.le_of_lt_succ p.shorter
          have h₂ := length_dropVisibility_le p.rest
          rw [hbody] at h₂
          exact Nat.le_trans h₂ h₁
        match ← parseItem eof p.value u us with
        | some item => do
          let more ← parseItems eof item.rest
          .ok (item.value :: more)
        | none => parseItems eof (dropItem (u :: us))
termination_by ts.length
decreasing_by
  · have := length_dropUnit_le (rest.drop 1)
    simp only [List.length_drop, List.length_cons] at this ⊢
    omega
  · exact Nat.lt_of_lt_of_le (Nat.lt_succ_of_lt item.shorter) hle
  · exact Nat.lt_of_lt_of_le (length_dropItem_lt u us) hle

/-- The items of a source text. -/
def parse [Text.StandIn] (source : String) : Result (List Item) :=
  let stream := tokenize source
  parseItems stream.eof stream.tokens

end Rust
end Ferrotype

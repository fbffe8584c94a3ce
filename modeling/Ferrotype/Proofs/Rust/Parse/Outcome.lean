/-
# What parsers give, without the bound

The result of a parser carries a bound that depends on the tokens it was given, so results for
different tokens cannot be compared as they are. `outcome` keeps the value and the rest alone. The
outcomes of fields, structs, enums, constants and aliases are made up of those of their parts:
visibility and where clauses do not appear in them but as tokens that are dropped.
-/

import Ferrotype.Proofs.Rust.Parse.Separated

namespace Ferrotype
namespace Rust

section Outcome

variable {α β : Type} {n m : Nat}

/-- The value that a parser gives and what it leaves. -/
def outcome (r : Result (Parsed α n)) : Result (α × List Token) := r.map fun p => (p.value, p.rest)

/-- The outcome of one parser behind another one. -/
theorem outcome_bind {x : Result (Parsed α n)} {f : Parsed α n → Result (Parsed β m)}
    {g : α × List Token → Result (β × List Token)}
    (h : ∀ p, outcome (f p) = g (p.value, p.rest)) : outcome (x >>= f) = outcome x >>= g := by
  cases x with
  | error e => rfl
  | ok p => exact h p

/-- A result by its value and what is left. -/
theorem outcome_eq_ok {r : Result (Parsed α n)} {value : α} {rest : List Token}
    (h : ∃ p, r = .ok p ∧ p.value = value ∧ p.rest = rest) : outcome r = .ok (value, rest) := by
  obtain ⟨p, rfl, rfl, rfl⟩ := h
  rfl

end Outcome

variable (eof : Token)

/-- A token that is expected is taken. -/
theorem outcome_expect {t : Token} {kind : Kind} (h : t.kind = kind) (place : Place)
    (ts : List Token) : outcome (expect eof kind place (t :: ts)) = .ok (t, ts) := by
  rw [expect, if_pos h]
  rfl

/-- Another token is an error that names it and its place. -/
theorem outcome_expect_ne {t : Token} {kind : Kind} (h : t.kind ≠ kind) (place : Place)
    (ts : List Token) :
    outcome (expect eof kind place (t :: ts)) = .error (.expected kind t place) := by
  rw [expect, if_neg h]
  rfl

/-! ## Members -/

/-- A field with a name, step by step. -/
theorem outcome_namedField (p : Preamble) (ts : List Token) :
    outcome (namedField eof p ts) = (do
      let (name, rest) ← outcome (expect eof .identifier .fieldName (dropVisibility ts))
      let (_, rest) ← outcome (expect eof .colon (.afterField name.text) rest)
      let (type, rest) ← outcome (parseType eof rest)
      .ok (⟨some name.text, type, p⟩, rest)) :=
  outcome_bind fun _ => outcome_bind fun _ => outcome_bind fun _ => rfl

/-- A field by position, step by step. -/
theorem outcome_tupleField (p : Preamble) (ts : List Token) :
    outcome (tupleField eof p ts) = (do
      let (type, rest) ← outcome (parseType eof (dropVisibility ts))
      .ok (⟨none, type, p⟩, rest)) :=
  outcome_bind fun _ => rfl

section Members

variable {α : Type} {closer : Kind} (separator : α → Place)
  (member : Preamble → (ts : List Token) → Result (Parsed α ts.length))

/-- Behind a member and a comma there may be more. -/
theorem outcome_membersBehind_comma {t : Token} (h : t.kind = .comma) (value : α)
    (ts : List Token) :
    outcome (membersBehind eof separator member closer value (t :: ts)) =
      (outcome (members eof closer separator member ts)).map
        fun (values, rest) => (value :: values, rest) := by
  rw [membersBehind, parseSeparated, if_pos h]
  cases members eof closer separator member ts <;> rfl

/-- In front of the closing token a member is the last one. -/
theorem outcome_membersBehind_closer {t : Token} (h : t.kind = closer) (hcomma : closer ≠ .comma)
    (value : α) (ts : List Token) :
    outcome (membersBehind eof separator member closer value (t :: ts)) = .ok ([value], ts) := by
  rw [membersBehind, parseSeparated, if_neg (h ▸ hcomma), if_pos h]
  rfl

/-- A member is read behind its preamble. -/
theorem outcome_members {ts : List Token} (hne : ts ≠ []) (hkind : headKind ts ≠ closer)
    {p : Parsed Preamble (ts.length + 1)} (hp : preamble eof ts = .ok p)
    (hclose : headKind p.rest ≠ closer) :
    outcome (members eof closer separator member ts) =
      outcome (member p.value p.rest) >>= fun (value, rest) =>
        outcome (membersBehind eof separator member closer value rest) := by
  cases ts with
  | nil => exact absurd rfl hne
  | cons t ts =>
    rw [members_of_member eof separator member hkind hp hclose]
    refine outcome_bind fun m => ?_
    show _ = outcome (membersBehind eof separator member closer m.value m.rest)
    cases membersBehind eof separator member closer m.value m.rest <;> rfl

/-- The bracket that closes a list of members ends it. -/
theorem outcome_members_closer {t : Token} (h : t.kind = closer) (ts : List Token) :
    outcome (members eof closer separator member (t :: ts)) = .ok ([], ts) := by
  rw [members, if_pos h]
  rfl

end Members

/-! ## Declarations -/

/-- The fields of a struct in braces. -/
theorem outcome_structBody_named {t : Token} (h : t.kind = .lbrace) (name : String)
    (ts : List Token) :
    outcome (structBody eof name (t :: ts)) = (do
      let (fields, rest) ← outcome (namedFields eof ts)
      .ok (.struct .named fields, rest)) := by
  rw [structBody, if_pos h]
  exact outcome_bind fun _ => rfl

/-- The fields of a struct in parentheses, behind which a where clause can stand. -/
theorem outcome_structBody_tuple {t : Token} (h : t.kind = .lparen) (name : String)
    (ts : List Token) :
    outcome (structBody eof name (t :: ts)) = (do
      let (fields, rest) ← outcome (tupleFields eof ts)
      let (_, rest) ← outcome (expect eof .semicolon (.afterTupleStruct name) (dropWhere rest))
      .ok (.struct .tuple fields, rest)) := by
  rw [structBody, if_neg (by simp [h]), if_pos h]
  exact outcome_bind fun _ => outcome_bind fun _ => rfl

/-- What starts no fields has to be a semicolon. -/
theorem outcome_structBody_unit {t : Token} (hbrace : t.kind ≠ .lbrace) (hparen : t.kind ≠ .lparen)
    (name : String) (ts : List Token) :
    outcome (structBody eof name (t :: ts)) = (do
      let (_, rest) ← outcome (expect eof .semicolon (.afterUnitStruct name) (t :: ts))
      .ok (.struct .unit [], rest)) := by
  rw [structBody, if_neg hbrace, if_neg hparen]
  exact outcome_bind fun _ => rfl

/-- A struct, step by step. -/
theorem outcome_parseStruct (p : Preamble) (ts : List Token) :
    outcome (parseStruct eof p ts) = (do
      let (name, rest) ← outcome (expect eof .identifier .structName ts)
      let (params, rest) ← outcome (generics eof rest)
      let (body, rest) ← outcome (structBody eof name.text (dropWhere rest))
      .ok (⟨name.text, params, p, body⟩, rest)) :=
  outcome_bind fun _ => outcome_bind fun _ => outcome_bind fun _ => rfl

/-- An enum, step by step. -/
theorem outcome_parseEnum (p : Preamble) (ts : List Token) :
    outcome (parseEnum eof p ts) = (do
      let (name, rest) ← outcome (expect eof .identifier .enumName ts)
      let (params, rest) ← outcome (generics eof rest)
      let (_, rest) ← outcome (expect eof .lbrace (.openingEnum name.text) (dropWhere rest))
      let (variants, rest) ← outcome (members eof .rbrace (fun v : Variant => .afterVariant v.name)
        (variant eof name.text) rest)
      .ok (⟨name.text, params, p, .enum variants⟩, rest)) :=
  outcome_bind fun _ => outcome_bind fun _ => outcome_bind fun _ => outcome_bind fun _ => rfl

/-- A constant, step by step. -/
theorem outcome_parseConst (p : Preamble) (ts : List Token) :
    outcome (parseConst eof p ts) = (do
      let (name, rest) ← outcome (expect eof .identifier .constName ts)
      let (_, rest) ← outcome (expect eof .colon (.afterConst name.text) rest)
      let (type, rest) ← outcome (parseType eof rest)
      let (value, rest) ← outcome (constValue eof rest)
      let (_, rest) ← outcome (expect eof .semicolon (.afterConst name.text) rest)
      .ok (⟨name.text, [], p, .const type value⟩, rest)) :=
  outcome_bind fun _ => outcome_bind fun _ => outcome_bind fun _ => outcome_bind fun _ =>
    outcome_bind fun _ => rfl

/-- A type alias, step by step. -/
theorem outcome_parseAlias (p : Preamble) (ts : List Token) :
    outcome (parseAlias eof p ts) = (do
      let (name, rest) ← outcome (expect eof .identifier .aliasName ts)
      let (params, rest) ← outcome (generics eof rest)
      let (_, rest) ← outcome (expect eof .eq (.inAlias name.text) (dropWhere rest))
      let (type, rest) ← outcome (parseType eof rest)
      let (_, rest) ← outcome (expect eof .semicolon (.afterAlias name.text) rest)
      .ok (⟨name.text, params, p, .typeAlias type⟩, rest)) :=
  outcome_bind fun _ => outcome_bind fun _ => outcome_bind fun _ => outcome_bind fun _ =>
    outcome_bind fun _ => rfl

end Rust
end Ferrotype

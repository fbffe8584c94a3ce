/-
# Walks over items

The loops of the parser over members and over items. A member takes at least one token and so does
an item that is skipped, and each turn of the main loop begins behind the one before.
-/

import Ferrotype.Proofs.Rust.Parse.Branch
import Ferrotype.Proofs.Rust.Walk.Attribute
import Ferrotype.Proofs.Rust.Walk.Expr
import Ferrotype.Proofs.Rust.Walk.Type

namespace Ferrotype
namespace Rust

open Cursor

namespace Walk

variable (eof : Token)

/-! ## Members -/

/-- Members up to the closing bracket, each with the preamble before it. -/
def members {α : Type} (closer : Kind) (separator : α → Place) (member : Preamble → TokenCursor α) :
    Unit → TokenCursor (List α) := watched fun again _ => do
  match ← look with
  | [] => raise (.expected closer eof .plain)
  | t :: _ =>
    if t.kind = closer then do
      advance
      pure []
    else do
      let p ← preamble eof ()
      if headKind (← look) = closer then do
        advance
        pure []
      else do
        let m ← member p
        separated eof closer (again ()) (m :: ·) [m] (.expected .comma · (separator m))

/-- A field with a name. -/
def namedField (p : Preamble) : TokenCursor Field := do
  skipVisibility
  let name ← expects eof .identifier .fieldName
  let _ ← expects eof .colon (.afterField name.text)
  let type ← type eof ()
  pure ⟨some name.text, type, p⟩

/-- A field of a tuple. -/
def tupleField (p : Preamble) : TokenCursor Field := do
  skipVisibility
  let type ← type eof ()
  pure ⟨none, type, p⟩

/-- The fields in braces, behind the opening one. -/
def namedFields : TokenCursor (List Field) :=
  members eof .rbrace (fun field => .afterField (field.name.getD "")) (namedField eof) ()

/-- The fields in parentheses, behind the opening one. -/
def tupleFields : TokenCursor (List Field) :=
  members eof .rparen (fun _ => .betweenTupleFields) (tupleField eof) ()

/-- The form of a variant with its fields. -/
def variantFields : TokenCursor (VariantShape × List Field) := do
  let ts ← look
  if headKind ts = .lbrace then do
    advance
    let fields ← namedFields eof
    pure (.named, fields)
  else if headKind ts = .lparen then do
    advance
    let fields ← tupleFields eof
    pure (.tuple, fields)
  else pure (.unit, [])

/-- The discriminant of a variant. -/
def discriminant : TokenCursor (Option String) := do
  if headKind (← look) = .eq then do
    advance
    let tokens ← skipRaw endsDiscriminant 0
    pure (some (textOf tokens))
  else pure none

/-- A variant. -/
def variant (enumName : String) (p : Preamble) : TokenCursor Variant := do
  let name ← expects eof .identifier (.variantOf enumName)
  let fields ← variantFields eof
  let value ← discriminant
  pure ⟨name.text, fields.1, fields.2, value, p⟩

/-! ## Items -/

/-- The form of a struct with its fields. -/
def structBody (name : String) : TokenCursor Body := do
  let ts ← look
  if headKind ts = .lbrace then do
    advance
    let fields ← namedFields eof
    pure (.struct .named fields)
  else if headKind ts = .lparen then do
    advance
    let fields ← tupleFields eof
    skipWhere
    let _ ← expects eof .semicolon (.afterTupleStruct name)
    pure (.struct .tuple fields)
  else do
    let _ ← expects eof .semicolon (.afterUnitStruct name)
    pure (.struct .unit [])

/-- A struct behind its keyword. -/
def structItem (p : Preamble) : TokenCursor Item := do
  let name ← expects eof .identifier .structName
  let params ← generics eof
  skipWhere
  let body ← structBody eof name.text
  pure ⟨name.text, params, p, body⟩

/-- An enum behind its keyword. -/
def enumItem (p : Preamble) : TokenCursor Item := do
  let name ← expects eof .identifier .enumName
  let params ← generics eof
  skipWhere
  let _ ← expects eof .lbrace (.openingEnum name.text)
  let variants ← members eof .rbrace (fun v : Variant => .afterVariant v.name)
    (variant eof name.text) ()
  pure ⟨name.text, params, p, .enum variants⟩

/-- A constant behind its keyword. -/
def constItem (p : Preamble) : TokenCursor Item := do
  let name ← expects eof .identifier .constName
  let _ ← expects eof .colon (.afterConst name.text)
  let type ← type eof ()
  let value ← constValue eof
  let _ ← expects eof .semicolon (.afterConst name.text)
  pure ⟨name.text, [], p, .const type value⟩

/-- A type alias behind its keyword. -/
def aliasItem (p : Preamble) : TokenCursor Item := do
  let name ← expects eof .identifier .aliasName
  let params ← generics eof
  skipWhere
  let _ ← expects eof .eq (.inAlias name.text)
  let type ← type eof ()
  let _ ← expects eof .semicolon (.afterAlias name.text)
  pure ⟨name.text, params, p, .typeAlias type⟩

/-- The item that starts with the next token, if that is the keyword of one. -/
def item (p : Preamble) : TokenCursor (Option Item) := do
  let ts ← look
  if headKind ts = .struct then do
    advance
    some <$> structItem eof p
  else if headKind ts = .enum then do
    advance
    some <$> enumItem eof p
  else if headKind ts = .const ∧ headKind (ts.drop 1) = .identifier then do
    advance
    some <$> constItem eof p
  else if headKind ts = .type then do
    advance
    some <$> aliasItem eof p
  else pure none

/-- The items of a source. -/
def items : Unit → TokenCursor (List Item) := watched fun again _ => do
  match ← look with
  | [] => pure []
  | t :: ts =>
    if t.kind = .hash ∧ headKind ts = .bang then do
      advance
      advance
      skipUnit
      again ()
    else do
      let p ← preamble eof ()
      skipVisibility
      match ← look with
      | [] => pure []
      | _ :: _ =>
        match ← item eof p with
        | some i =>
          let more ← again ()
          pure (i :: more)
        | none =>
          skipItem ()
          again ()

/-! ## The parser is followed -/

section Follows

variable {eof}

/-- Members of a body up to the closing token, if each one follows its parser. The induction is on
the number of tokens. -/
theorem follows_members {α : Type} {closer : Kind} {separator : α → Place}
    {m : Preamble → TokenCursor α}
    {member : Preamble → (ts : List Token) → Result (Parsed α ts.length)}
    (hm : ∀ p ts, Follows eof (m p) ts (member p ts)) (ts : List Token) :
    Follows eof (members eof closer separator m ()) ts
      (Rust.members eof closer separator member ts) := by
  refine follows_watched (follows_look ?_)
  match ts with
  | [] =>
    rw [Rust.members]
    exact follows_raise (by simp) []
  | t :: ts =>
    by_cases hkind : t.kind = closer
    · refine follows_then hkind (follows_after (passes_advance t ts) ?_)
      rw [Rust.members, if_pos hkind]
      exact follows_pure rfl rfl
    refine follows_else hkind ?_
    have hpreamble := @follows_preamble eof (t :: ts)
    cases hp : Rust.preamble eof (t :: ts) with
    | error e =>
      rw [Rust.members, if_neg hkind, hp]
      rw [hp] at hpreamble
      exact Fails.bind hpreamble
    | ok p =>
      rw [hp] at hpreamble
      refine Lands.follows hpreamble (follows_look ?_)
      by_cases hclose : headKind p.rest = closer
      · rw [members_of_closer eof separator member hkind hp hclose]
        refine follows_then hclose (follows_after (passes_advance_drop p.rest) ?_)
        exact follows_pure rfl rfl
      · rw [members_of_member eof separator member hkind hp hclose]
        refine follows_else hclose ((hm p.value p.rest).bind fun member _ => ?_)
        refine (follows_separated (by simp) fun u us hrest => ?_).same (fun _ => rfl) fun _ => rfl
        have hrest : member.rest = u :: us := hrest
        have hlt : us.length < (t :: ts).length := by
          have h₁ := member.shorter
          have h₂ := p.shorter
          rw [hrest] at h₁
          simp only [List.length_cons] at h₁ h₂ ⊢
          omega
        exact (follows_members hm us).guarded hlt
termination_by ts.length
decreasing_by exact hlt

/-- A field with a name. -/
theorem follows_namedField (p : Preamble) (ts : List Token) :
    Follows eof (namedField eof p) ts (Rust.namedField eof p ts) := by
  refine follows_after (passes_skipVisibility ts) ?_
  refine (follows_expects _ _ _ _).bind fun name _ => ?_
  refine (follows_expects _ _ _ _).bind fun colon _ => ?_
  exact (follows_type _).bind fun type _ => follows_pure rfl rfl

/-- A field by position. -/
theorem follows_tupleField (p : Preamble) (ts : List Token) :
    Follows eof (tupleField eof p) ts (Rust.tupleField eof p ts) := by
  refine follows_after (passes_skipVisibility ts) ?_
  exact (follows_type _).bind fun type _ => follows_pure rfl rfl

/-- Fields with names. -/
theorem follows_namedFields (ts : List Token) :
    Follows eof (namedFields eof) ts (Rust.namedFields eof ts) :=
  follows_members follows_namedField ts

/-- Fields by position. -/
theorem follows_tupleFields (ts : List Token) :
    Follows eof (tupleFields eof) ts (Rust.tupleFields eof ts) :=
  follows_members follows_tupleField ts

/-- The fields of a variant, in each of its three shapes. -/
theorem follows_variantFields (ts : List Token) :
    Follows eof (variantFields eof) ts (Rust.variantFields eof ts) := by
  refine follows_look ?_
  cases ts with
  | nil => exact follows_else (by simp) (follows_else (by simp) (follows_pure rfl rfl))
  | cons t ts =>
    rw [Rust.variantFields]
    by_cases hbrace : t.kind = .lbrace
    · rw [if_pos hbrace]
      refine follows_then hbrace (follows_after (passes_advance t ts) ?_)
      exact (follows_namedFields ts).bind fun fields _ => follows_pure rfl rfl
    rw [if_neg hbrace]
    refine follows_else hbrace ?_
    by_cases hparen : t.kind = .lparen
    · refine follows_then hparen (follows_after (passes_advance t ts) ?_)
      rw [if_pos hparen]
      exact (follows_tupleFields ts).bind fun fields _ => follows_pure rfl rfl
    · refine follows_else hparen ?_
      rw [if_neg hparen]
      exact follows_pure rfl rfl

/-- The discriminant of a variant, or none. -/
theorem passes_discriminant (ts : List Token) :
    Passes discriminant ts (Rust.discriminant ts).1 (Rust.discriminant ts).2 := by
  refine passes_look ?_
  fun_cases Rust.discriminant ts with
  | case1 => exact passes_pure none []
  | case2 t ts heq =>
    refine passes_then heq ?_
    exact passes_advance_bind ((passes_skipRaw _ 0 ts).bind (passes_pure _ _))
  | case3 t ts heq => exact passes_else heq (passes_pure none _)

/-- A variant. -/
theorem follows_variant (enumName : String) (p : Preamble) (ts : List Token) :
    Follows eof (variant eof enumName p) ts (Rust.variant eof enumName p ts) := by
  refine (follows_expects _ _ _ _).bind fun name _ => ?_
  refine (follows_variantFields _).bind fun fields _ => ?_
  exact follows_after (passes_discriminant _) (follows_pure rfl rfl)

/-! ### Items -/

/-- The body of a struct, in each of its three shapes. -/
theorem follows_structBody (name : String) (ts : List Token) :
    Follows eof (structBody eof name) ts (Rust.structBody eof name ts) := by
  refine follows_look ?_
  cases ts with
  | nil =>
    refine follows_else (by simp) (follows_else (by simp) ?_)
    exact Fails.bind (follows_expects eof .semicolon (.afterUnitStruct name) [])
  | cons t ts =>
    rw [Rust.structBody]
    by_cases hbrace : t.kind = .lbrace
    · rw [if_pos hbrace]
      refine follows_then hbrace (follows_after (passes_advance t ts) ?_)
      exact (follows_namedFields ts).bind fun fields _ => follows_pure rfl rfl
    rw [if_neg hbrace]
    refine follows_else hbrace ?_
    by_cases hparen : t.kind = .lparen
    · refine follows_then hparen (follows_after (passes_advance t ts) ?_)
      rw [if_pos hparen]
      refine (follows_tupleFields ts).bind fun fields _ => ?_
      refine follows_after (passes_skipWhere _) ?_
      exact (follows_expects _ _ _ _).bind fun closing _ => follows_pure rfl rfl
    · refine follows_else hparen ?_
      rw [if_neg hparen]
      exact (follows_expects _ _ _ _).bind fun closing _ => follows_pure rfl rfl

/-- A struct. -/
theorem follows_structItem (p : Preamble) (ts : List Token) :
    Follows eof (structItem eof p) ts (parseStruct eof p ts) := by
  refine (follows_expects _ _ _ _).bind fun name _ => ?_
  refine (follows_generics _).bind fun params _ => ?_
  refine follows_after (passes_skipWhere _) ?_
  exact (follows_structBody _ _).bind fun body _ => follows_pure rfl rfl

/-- An enum. -/
theorem follows_enumItem (p : Preamble) (ts : List Token) :
    Follows eof (enumItem eof p) ts (parseEnum eof p ts) := by
  refine (follows_expects _ _ _ _).bind fun name _ => ?_
  refine (follows_generics _).bind fun params _ => ?_
  refine follows_after (passes_skipWhere _) ?_
  refine (follows_expects _ _ _ _).bind fun opening _ => ?_
  exact (follows_members (follows_variant _) _).bind fun variants _ => follows_pure rfl rfl

/-- A constant. -/
theorem follows_constItem (p : Preamble) (ts : List Token) :
    Follows eof (constItem eof p) ts (parseConst eof p ts) := by
  refine (follows_expects _ _ _ _).bind fun name _ => ?_
  refine (follows_expects _ _ _ _).bind fun colon _ => ?_
  refine (follows_type _).bind fun type _ => ?_
  refine (follows_constValue _).bind fun value _ => ?_
  exact (follows_expects _ _ _ _).bind fun closing _ => follows_pure rfl rfl

/-- A type alias. -/
theorem follows_aliasItem (p : Preamble) (ts : List Token) :
    Follows eof (aliasItem eof p) ts (parseAlias eof p ts) := by
  refine (follows_expects _ _ _ _).bind fun name _ => ?_
  refine (follows_generics _).bind fun params _ => ?_
  refine follows_after (passes_skipWhere _) ?_
  refine (follows_expects _ _ _ _).bind fun eq _ => ?_
  refine (follows_type _).bind fun type _ => ?_
  exact (follows_expects _ _ _ _).bind fun closing _ => follows_pure rfl rfl

/-- An item that is read, and what follows it; no item, and the tokens as they are. -/
def itemReading {n : Nat} (ts : List Token) : Option (Parsed Item n) → Option Item × List Token
  | some i => (some i.value, i.rest)
  | none => (none, ts)

/-- What the walk over an item behind its keyword gives. -/
theorem follows_some {n : Nat} {m : TokenCursor Item} {t : Token} {ts : List Token}
    {x : Result (Parsed Item n)} (h : Follows eof m ts x) (us : List Token) :
    Follows eof (do advance; some <$> m) (t :: ts) ((x.map some).map (itemReading us)) := by
  refine follows_after (passes_advance t ts) ?_
  cases x with
  | ok i => exact Lands.bind_lands h (lands_of_passes (passes_pure _ _))
  | error e => exact Fails.bind h

/-- An item, whichever it is, or one that is skipped. -/
theorem follows_item (p : Preamble) (t : Token) (ts : List Token) :
    Follows eof (item eof p) (t :: ts)
      ((parseItem eof p t ts).map (itemReading (t :: ts))) := by
  refine follows_look ?_
  unfold parseItem
  by_cases hstruct : t.kind = .struct
  · rw [if_pos hstruct]
    exact follows_then hstruct (follows_some (follows_structItem p ts) _)
  rw [if_neg hstruct]
  refine follows_else hstruct ?_
  by_cases henum : t.kind = .enum
  · refine follows_then henum ?_
    rw [if_pos henum]
    exact follows_some (follows_enumItem p ts) _
  refine follows_else henum ?_
  rw [if_neg henum]
  by_cases hconst : t.kind = .const ∧ headKind ts = .identifier
  · refine follows_then hconst ?_
    rw [if_pos hconst]
    exact follows_some (follows_constItem p ts) _
  refine follows_else hconst ?_
  rw [if_neg hconst]
  by_cases halias : t.kind = .type
  · refine follows_then halias ?_
    rw [if_pos halias]
    exact follows_some (follows_aliasItem p ts) _
  · refine follows_else halias ?_
    rw [if_neg halias]
    exact follows_pure rfl rfl

/-- An item that is read leaves an end of the tokens. -/
theorem suffix_of_parseItem {p : Preamble} {t : Token} {ts : List Token}
    {i : Parsed Item ts.length} (h : parseItem eof p t ts = .ok (some i)) :
    i.rest <:+ t :: ts := by
  have hreading : (parseItem eof p t ts).map (itemReading (t :: ts)) =
      .ok (some i.value, i.rest) := by
    rw [h]
    rfl
  exact (follows_item p t ts).suffix hreading

/-- **The walk over the items follows the parser** to the end of the tokens or to its error. -/
theorem follows_items (ts : List Token) :
    Follows eof (items eof ()) ts
      ((parseItems eof ts).map fun items => (items, ([] : List Token))) := by
  refine follows_watched (follows_look ?_)
  match ts with
  | [] =>
    rw [parseItems]
    exact follows_pure rfl rfl
  | t :: ts =>
    by_cases hinner : t.kind = .hash ∧ headKind ts = .bang
    · -- an attribute of the file is passed over with its brackets
      refine follows_then hinner (follows_after (passes_advance t ts) ?_)
      refine follows_after (passes_advance_drop ts) (follows_after (passes_skipUnit _) ?_)
      rw [parseItems, if_pos hinner]
      have hlt : (dropUnit (ts.drop 1)).length < (t :: ts).length := by
        have := length_dropUnit_le (ts.drop 1)
        simp only [List.length_drop, List.length_cons] at this ⊢
        omega
      exact (follows_items _).guarded hlt
    refine follows_else hinner ?_
    have hpreamble := @follows_preamble eof (t :: ts)
    cases hp : Rust.preamble eof (t :: ts) with
    | error e =>
      rw [parseItems, if_neg hinner, hp]
      rw [hp] at hpreamble
      exact Fails.bind hpreamble
    | ok p =>
      rw [hp] at hpreamble
      refine Lands.follows hpreamble (follows_after (passes_skipVisibility p.rest) ?_)
      refine follows_look ?_
      -- documentation, attributes and a visibility may be none, so they alone need not get ahead
      have hle : (dropVisibility p.rest).length ≤ (t :: ts).length :=
        Nat.le_trans (length_dropVisibility_le _) (Nat.le_of_lt_succ p.shorter)
      have hitems := parseItems_of_preamble hinner hp
      cases hrest : dropVisibility p.rest with
      | nil =>
        rw [hrest] at hitems
        rw [hitems]
        exact follows_pure rfl rfl
      | cons u us =>
        rw [hrest] at hle hitems
        dsimp only at hitems
        have hitem := @follows_item eof p.value u us
        cases hi : parseItem eof p.value u us with
        | error e =>
          rw [hi] at hitem hitems
          rw [hitems]
          exact Fails.bind hitem
        | ok found =>
          rw [hi] at hitem hitems
          rw [hitems]
          refine Lands.follows hitem ?_
          cases found with
          | some i =>
            have hlt : i.rest.length < (t :: ts).length :=
              Nat.lt_of_lt_of_le (Nat.lt_succ_of_lt i.shorter) hle
            have hmore := (follows_items i.rest).guarded hlt
            cases hresult : parseItems eof i.rest with
            | error e =>
              rw [hresult] at hmore
              simp only [bind, Except.bind, hresult]
              exact Fails.bind hmore
            | ok more =>
              rw [hresult] at hmore
              simp only [bind, Except.bind, hresult]
              exact Lands.bind_lands hmore (lands_of_passes (passes_pure _ _))
          | none =>
            -- an item that is skipped has at least its first token
            have hlt : (dropItem (u :: us)).length < (t :: ts).length :=
              Nat.lt_of_lt_of_le (length_dropItem_lt u us) hle
            refine follows_after (passes_skipItem _) ?_
            exact (follows_items _).guarded hlt
termination_by ts.length
decreasing_by all_goals exact hlt

end Follows

end Walk
end Rust
end Ferrotype

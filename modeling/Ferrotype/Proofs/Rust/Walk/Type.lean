/-
# Walks over types

Types, the elements of a tuple and the arguments of a path call each other. A type inside another
one begins behind the first token of that one, and every turn of the two loops takes at least one
token, so the walk over a type ends where the parser leaves off.
-/

import Ferrotype.Proofs.Rust.Walk.Skip
import Ferrotype.Rust.Parse.Type

namespace Ferrotype
namespace Rust

open Cursor

namespace Walk

variable (eof : Token)

/-- The elements of a tuple type up to the closing parenthesis; the flag says whether a comma stands
before the first. -/
def elements (type : TokenCursor TypeExpr) : Bool → TokenCursor (List TypeExpr × Bool) :=
  watched fun again comma => do
    match ← look with
    | [] => raise (.expected .rparen eof .closingTuple)
    | t :: _ =>
      if t.kind = .rparen then do
        advance
        pure ([], comma)
      else do
        let element ← type
        separated eof .rparen (again true) (fun (es, comma) => (element :: es, comma))
          ([element], false) (.expected .comma · .betweenElements)

/-- An argument of a path, none if it is no type. -/
def typeArgument (type : TokenCursor TypeExpr) : TokenCursor (Option TypeExpr) := do
  let ts ← look
  if headKind ts = .lifetime then do
    advance
    pure none
  else if startsConstant (headKind ts) ∨ headKind ts = .identifier ∧
      (headKind (ts.drop 1) = .eq ∨ headKind (ts.drop 1) = .colon) then do
    skipBounds 0
    pure none
  else do
    let argument ← type
    pure (some argument)

/-- The type arguments of a path up to the closing angle bracket. -/
def typeArguments (type : TokenCursor TypeExpr) : Unit → TokenCursor (List TypeExpr) :=
  watched fun again _ => do
    match ← look with
    | [] => raise (.expected .gt eof .closingTypeArguments)
    | t :: _ =>
      if t.kind = .gt then do
        advance
        pure []
      else do
        let argument ← typeArgument type
        separated eof .gt (again ()) (argument.toList ++ ·) argument.toList
          (.expected .gt · .closingTypeArguments)

/-- What follows the path of a type. -/
def typeBehind (type : TokenCursor TypeExpr) (parts : List String) : TokenCursor TypeExpr := do
  if parts = [] then do
    let ts ← look
    raise (.expectedType (ts.headD eof))
  else do
    skipTurbofish
    if headKind (← look) = .lt then do
      advance
      let args ← typeArguments eof type ()
      pure (.classify (pathText parts) args)
    else pure (.classify (pathText parts) [])

/-- A type. -/
def type : Unit → TokenCursor TypeExpr := watched fun self _ => do
  match ← look with
  | [] => raise (.expectedType eof)
  | t :: _ =>
    if t.kind = .ampersand then do
      advance
      skipReference
      self ()
    else if t.kind = .lparen then do
      advance
      let (es, comma) ← elements eof (self ()) false
      pure (ofElements es comma)
    else if t.kind = .lbracket then do
      advance
      let element ← self ()
      skipLength
      let _ ← expects eof .rbracket .closingArray
      pure (.sequence element)
    else if t.kind = .bang then do
      advance
      pure (.primitive "!")
    else if startsVerbatim t then do
      let tokens ← skipVerbatim 0
      pure (.verbatim (textOf tokens))
    else do
      let parts ← skipPath
      typeBehind eof (self ()) parts

/-! ## The parser is followed -/

section Follows

variable {eof}

section Arguments

variable {m : TokenCursor TypeExpr} {t : Token} {ts : List Token}

/-- An argument that is no type is passed over. -/
theorem passes_typeArgument {skipped : Parsed Unit (t :: ts).length}
    (h : skippedArgument? t ts = some skipped) :
    Passes (typeArgument m) (t :: ts) none skipped.rest := by
  refine passes_look ?_
  unfold skippedArgument? at h
  split at h
  · rename_i hlifetime
    cases h
    exact passes_then hlifetime (passes_advance_bind (passes_pure _ _))
  · rename_i hlifetime
    split at h
    · rename_i hconstant
      cases h
      refine passes_else hlifetime (passes_then hconstant ?_)
      exact (passes_skipBounds 0 _).bind (passes_pure _ _)
    · cases h

/-- Any other argument is a type. -/
theorem follows_typeArgument (h : skippedArgument? t ts = none)
    (hm : Follows eof m (t :: ts) (parseType eof (t :: ts))) :
    Follows eof (typeArgument m) (t :: ts)
      (parseType eof (t :: ts) >>= fun type => .ok (type.map some)) := by
  refine follows_look ?_
  unfold skippedArgument? at h
  split at h
  · cases h
  · rename_i hlifetime
    split at h
    · cases h
    · rename_i hconstant
      refine follows_else hlifetime (follows_else hconstant ?_)
      exact hm.bind fun type _ => follows_pure rfl rfl

end Arguments

section Loops

variable {n : Nat} {m : TokenCursor TypeExpr}
  (hm : ∀ us : List Token, us.length ≤ n → Follows eof m us (parseType eof us))
include hm

/-- Elements up to the closing parenthesis, if types follow their parser. The induction is on the
number of tokens. -/
theorem follows_elements (ts : List Token) (hts : ts.length ≤ n) (comma : Bool) :
    Follows eof (elements eof m comma) ts (parseElements eof ts comma) := by
  refine follows_watched (follows_look ?_)
  match ts with
  | [] =>
    rw [parseElements]
    exact follows_raise (by simp) []
  | t :: ts =>
    by_cases hkind : t.kind = .rparen
    · rw [parseElements, if_pos hkind]
      refine follows_then hkind (follows_after (passes_advance t ts) ?_)
      exact follows_pure rfl rfl
    · rw [parseElements_cons eof hkind]
      refine follows_else hkind ((hm _ hts).bind fun element _ => ?_)
      refine (follows_separated (by simp) fun u us hrest => ?_).same (fun _ => rfl) fun _ => rfl
      have hrest : element.rest = u :: us := hrest
      have hshorter : (u :: us).length < (t :: ts).length := hrest ▸ element.shorter
      have hlt : us.length < (t :: ts).length := Nat.lt_of_succ_lt hshorter
      exact (follows_elements us (Nat.le_trans (Nat.le_of_lt hlt) hts) true).guarded hlt
termination_by ts.length
decreasing_by exact hlt

/-- Arguments up to the closing bracket, if types follow their parser. The induction is on the
number of tokens. -/
theorem follows_typeArguments (ts : List Token) (hts : ts.length ≤ n) :
    Follows eof (typeArguments eof m ()) ts (parseArguments eof ts) := by
  refine follows_watched (follows_look ?_)
  match ts with
  | [] =>
    rw [parseArguments]
    exact follows_raise (by simp) []
  | t :: ts =>
    -- The arguments behind the next one stand behind a comma.
    have hothers : ∀ {rest : List Token}, rest.length < (t :: ts).length →
        ∀ u us, rest = u :: us → Follows eof
          (Cursor.guarded (t :: ts) (typeArguments eof m ())) us (parseArguments eof us) := by
      rintro rest hlt u us rfl
      have hlt : us.length < (t :: ts).length := Nat.lt_of_succ_lt hlt
      exact (follows_typeArguments us (Nat.le_trans (Nat.le_of_lt hlt) hts)).guarded hlt
    by_cases hkind : t.kind = .gt
    · rw [parseArguments, if_pos hkind]
      refine follows_then hkind (follows_after (passes_advance t ts) ?_)
      exact follows_pure rfl rfl
    · refine follows_else hkind ?_
      cases hskipped : skippedArgument? t ts with
      | some skipped =>
        rw [parseArguments_of_skipped eof hkind hskipped]
        refine follows_after (passes_typeArgument hskipped) ?_
        exact (follows_separated (by simp) (hothers skipped.shorter)).same (fun _ => rfl)
          fun _ => rfl
      | none =>
        rw [parseArguments_of_type eof hkind hskipped]
        have htype := follows_typeArgument hskipped (hm _ hts)
        cases hresult : parseType eof (t :: ts) with
        | error e =>
          have hfails : Fails eof (typeArgument m) (t :: ts) e := by
            rw [hresult] at htype
            exact htype
          exact hfails.bind
        | ok type =>
          have hlands : Lands (typeArgument m) (t :: ts) (some type.value) type.rest := by
            rw [hresult] at htype
            exact htype
          refine hlands.follows ?_
          exact (follows_separated (by simp) (hothers type.shorter)).same (fun _ => rfl)
            fun _ => rfl
termination_by ts.length
decreasing_by exact hlt

end Loops

/-- **The walk over a type follows the parser of types.** -/
theorem follows_type (ts : List Token) : Follows eof (type eof ()) ts (parseType eof ts) := by
  refine follows_watched (follows_look ?_)
  match ts with
  | [] =>
    rw [parseType]
    exact follows_raise (by simp) []
  | t :: rest =>
    -- A type inside this one begins behind its first token.
    have hinner : ∀ us : List Token, us.length ≤ rest.length → Follows eof
        (Cursor.guarded (t :: rest) (type eof ())) us (parseType eof us) := by
      intro us hus
      have hlt : us.length < (t :: rest).length := Nat.lt_succ_of_le hus
      exact (follows_type us).guarded hlt
    rw [parseType]
    by_cases hreference : t.kind = .ampersand
    · refine follows_then hreference ?_
      rw [if_pos hreference]
      refine follows_after (passes_advance t rest) (follows_after (passes_skipReference rest) ?_)
      exact (hinner _ (length_dropReference_le rest)).same (fun _ => rfl) fun _ => rfl
    refine follows_else hreference ?_
    rw [if_neg hreference]
    by_cases htuple : t.kind = .lparen
    · refine follows_then htuple ?_
      rw [if_pos htuple]
      refine follows_after (passes_advance t rest) ?_
      exact (follows_elements hinner rest (Nat.le_refl _) false).bind fun elements _ =>
        follows_pure rfl rfl
    refine follows_else htuple ?_
    rw [if_neg htuple]
    by_cases harray : t.kind = .lbracket
    · refine follows_then harray ?_
      rw [if_pos harray]
      refine follows_after (passes_advance t rest) ?_
      refine (hinner rest (Nat.le_refl _)).bind fun element _ => ?_
      refine follows_after (passes_skipLength _) ?_
      exact (follows_expects _ _ _ _).bind fun closing _ => follows_pure rfl rfl
    refine follows_else harray ?_
    rw [if_neg harray]
    by_cases hnever : t.kind = .bang
    · refine follows_then hnever ?_
      rw [if_pos hnever]
      exact follows_after (passes_advance t rest) (follows_pure rfl rfl)
    refine follows_else hnever ?_
    rw [if_neg hnever]
    by_cases hverbatim : startsVerbatim t
    · refine follows_then hverbatim ?_
      rw [dif_pos hverbatim]
      exact follows_after (passes_skipVerbatim 0 _) (follows_pure rfl rfl)
    refine follows_else hverbatim ?_
    rw [dif_neg hverbatim]
    refine follows_after (passes_skipPath _) ?_
    by_cases hpath : (path (t :: rest)).1 = []
    · refine follows_then hpath (follows_look ?_)
      rw [dif_pos hpath]
      exact follows_raise (by simp) _
    rw [dif_neg hpath]
    have hturbofish := passes_skipTurbofish (path (t :: rest)).2
    split
    · rename_i hrest
      rw [hrest] at hturbofish
      refine follows_else hpath (follows_after hturbofish (follows_look ?_))
      exact follows_else (by simp) (follows_pure rfl rfl)
    · rename_i u us hrest
      have hlt : (u :: us).length < (t :: rest).length :=
        hrest ▸ Nat.lt_of_le_of_lt (length_dropTurbofish_le _) (length_path_lt hpath)
      rw [hrest] at hturbofish
      refine follows_else hpath (follows_after hturbofish (follows_look ?_))
      by_cases hangle : u.kind = .lt
      · refine follows_then hangle (follows_after (passes_advance u us) ?_)
        rw [if_pos hangle]
        have hle : us.length ≤ rest.length := by
          simp only [List.length_cons] at hlt
          omega
        refine (follows_typeArguments hinner us hle).bind fun args _ => follows_pure ?_ rfl
        simp only [Reading.value, Parsed.value_widen, Parsed.value_later, Parsed.value_map]
      · refine follows_else hangle ?_
        rw [if_neg hangle]
        exact follows_pure rfl rfl
termination_by ts.length

end Follows

end Walk
end Rust
end Ferrotype

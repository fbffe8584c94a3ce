/-
# Walks straight on

The loops of the parser that pass over tokens: to the end of a group, along a path, up to the end
of bounds, of raw text, of a where clause or of an item that is skipped. Every one of them passes
over what the parser drops and over nothing else, and none goes back.
-/

import Ferrotype.Proofs.Rust.Walk

namespace Ferrotype
namespace Rust

open Cursor

namespace Walk

/-! ## Single tokens and groups -/

/-- Past the next token if that is of the given kind. -/
def skipIf (kind : Kind) : TokenCursor Unit := do
  if headKind (← look) = kind then advance

/-- A token of a kind, if it is there. -/
theorem passes_skipIf {kind : Kind} (ts : List Token) :
    Passes (skipIf kind) ts () (dropIf kind ts) := by
  refine passes_look ?_
  fun_cases dropIf kind ts with
  | case1 =>
    split
    · exact ⟨[], rfl, rfl⟩
    · exact passes_pure () []
  | case2 t ts hkind =>
    refine passes_then hkind ?_
    exact passes_advance t ts
  | case3 t ts hkind =>
    refine passes_else hkind ?_
    exact passes_pure () _

/-- Past the bracket that closes a group, where `depth` groups are open. -/
def skipGroup : Nat → TokenCursor Unit := watched fun again depth => do
  match ← look with
  | [] => pure ()
  | t :: _ =>
    advance
    if t.kind.opens then again (depth + 1)
    else if t.kind.closes then if depth = 1 then pure () else again (depth - 1)
    else again depth

/-- All tokens up to the end of the groups that are open. The induction is on the tokens. -/
theorem passes_skipGroup (depth : Nat) (ts : List Token) :
    Passes (skipGroup (depth + 1)) ts () (closeGroup depth ts) := by
  fun_induction closeGroup depth ts with
  | case1 => exact passes_watched (passes_look (passes_pure () []))
  | case2 depth t ts hopens ih =>
    refine passes_watched (passes_look (passes_advance_bind ?_))
    refine passes_then hopens ?_
    exact ih.guarded (Nat.lt_succ_self _)
  | case3 t ts hopens hcloses =>
    refine passes_watched (passes_look (passes_advance_bind ?_))
    refine passes_else hopens ?_
    refine passes_then hcloses ?_
    exact passes_pure () ts
  | case4 t ts hopens hcloses depth ih =>
    refine passes_watched (passes_look (passes_advance_bind ?_))
    refine passes_else hopens ?_
    refine passes_then hcloses ?_
    refine passes_else (Nat.succ_ne_succ_iff.2 (Nat.succ_ne_zero depth)) ?_
    exact ih.guarded (Nat.lt_succ_self _)
  | case5 depth t ts hopens hcloses ih =>
    refine passes_watched (passes_look (passes_advance_bind ?_))
    refine passes_else hopens ?_
    refine passes_else hcloses ?_
    exact ih.guarded (Nat.lt_succ_self _)

/-- Past a group of brackets or a single token. -/
def skipUnit : TokenCursor Unit := do
  if (headKind (← look)).opens then skipGroup 0 else advance

/-- An empty pair of parentheses, if it is there. -/
theorem passes_skipUnit (ts : List Token) : Passes skipUnit ts () (dropUnit ts) := by
  refine passes_look ?_
  fun_cases dropUnit ts with
  | case1 => exact ⟨[], rfl, rfl⟩
  | case2 t ts hopens =>
    refine passes_then hopens ?_
    refine passes_watched (passes_look (passes_advance_bind ?_))
    refine passes_then hopens ?_
    exact (passes_skipGroup 0 ts).guarded (Nat.lt_succ_self _)
  | case3 t ts hopens =>
    refine passes_else hopens ?_
    exact passes_advance t ts

/-! ## Paths and bounds -/

/-- Past the segments of a path. -/
def skipSegments : Unit → TokenCursor (List String) := watched fun again _ => do
  match ← look with
  | [] => pure []
  | t :: _ =>
    if isSegment t.kind then do
      advance
      let ts ← look
      if headKind ts = .colonColon ∧ headKind (ts.drop 1) ≠ .lt then do
        advance
        let more ← again ()
        pure (t.text :: more)
      else pure [t.text]
    else pure []

/-- The names of a path with the colons between them. -/
theorem passes_skipSegments (ts : List Token) :
    Passes (skipSegments ()) ts (segments ts).1 (segments ts).2 := by
  fun_induction segments ts with
  | case1 => exact passes_watched (passes_look (passes_pure [] []))
  | case2 t hsegment =>
    refine passes_watched (passes_look ?_)
    refine passes_then hsegment ?_
    exact passes_advance_bind (passes_look (passes_pure _ _))
  | case3 t hsegment =>
    refine passes_watched (passes_look ?_)
    refine passes_else hsegment ?_
    exact passes_pure _ _
  | case4 t s ts hsegment hcolon ih =>
    refine passes_watched (passes_look ?_)
    refine passes_then hsegment ?_
    refine passes_advance_bind (passes_look ?_)
    refine passes_then hcolon ?_
    refine passes_advance_bind (Passes.bind (ih.guarded ?_) (passes_pure _ _))
    simp only [List.length_cons]
    omega
  | case5 t s ts hsegment hcolon =>
    refine passes_watched (passes_look ?_)
    refine passes_then hsegment ?_
    refine passes_advance_bind (passes_look ?_)
    refine passes_else hcolon ?_
    exact passes_pure _ _
  | case6 t s ts hsegment =>
    refine passes_watched (passes_look ?_)
    refine passes_else hsegment ?_
    exact passes_pure _ _

/-- Past a path. -/
def skipPath : TokenCursor (List String) := do
  skipIf .colonColon
  skipSegments ()

/-- A path, which may start with colons. -/
theorem passes_skipPath (ts : List Token) : Passes skipPath ts (path ts).1 (path ts).2 :=
  (passes_skipIf ts).bind (passes_skipSegments _)

/-- Up to the end of bounds and defaults, where `depth` angle brackets are open. -/
def skipBounds : Nat → TokenCursor Unit := watched fun again depth => do
  match ← look with
  | [] => pure ()
  | t :: _ =>
    if depth = 0 ∧ endsBounds t.kind then pure ()
    else do
      skipUnit
      again (angleDepth depth t.kind)

/-- The bounds of a parameter. -/
theorem passes_skipBounds (depth : Nat) (ts : List Token) :
    Passes (skipBounds depth) ts () (dropBounds depth ts) := by
  fun_induction dropBounds depth ts with
  | case1 => exact passes_watched (passes_look (passes_pure () []))
  | case2 depth t ts hends =>
    refine passes_watched (passes_look ?_)
    refine passes_then hends ?_
    exact passes_pure () _
  | case3 depth t ts hends ih =>
    refine passes_watched (passes_look ?_)
    refine passes_else hends ?_
    exact (passes_skipUnit _).bind (ih.guarded (length_dropUnit_lt t ts))

/-! ## Raw text -/

/-- Over raw text up to a kind that stops, where `depth` groups are open; the tokens of the text. -/
def skipRaw (stops : Kind → Bool) : Nat → TokenCursor (List Token) := watched fun again depth => do
  match ← look with
  | [] => pure []
  | t :: _ =>
    if depth = 0 ∧ (stops t.kind ∨ t.kind.closes) then pure []
    else do
      advance
      let more ←
        again (if t.kind.opens then depth + 1 else if t.kind.closes then depth - 1 else depth)
      pure (t :: more)

/-- A span up to a stop outside all groups. -/
theorem passes_skipRaw (stops : Kind → Bool) (depth : Nat) (ts : List Token) :
    Passes (skipRaw stops depth) ts (rawSpan stops depth ts).1 (rawSpan stops depth ts).2 := by
  fun_induction rawSpan stops depth ts with
  | case1 => exact passes_watched (passes_look (passes_pure [] []))
  | case2 depth t ts hstops =>
    refine passes_watched (passes_look ?_)
    refine passes_then hstops ?_
    exact passes_pure _ _
  | case3 depth t ts hstops depth' ih =>
    refine passes_watched (passes_look ?_)
    refine passes_else hstops ?_
    exact passes_advance_bind ((ih.guarded (Nat.lt_succ_self _)).bind (passes_pure _ _))

/-- Over a type that is kept as text, where `depth` groups are open; its tokens. -/
def skipVerbatim : Nat → TokenCursor (List Token) := watched fun again depth => do
  match ← look with
  | [] => pure []
  | t :: _ =>
    if depth = 0 ∧ endsVerbatim t.kind then pure []
    else do
      advance
      let more ← again (verbatimDepth depth t.kind)
      pure (t :: more)

/-- The span of a type that is kept as text. -/
theorem passes_skipVerbatim (depth : Nat) (ts : List Token) :
    Passes (skipVerbatim depth) ts (verbatimSpan depth ts).1 (verbatimSpan depth ts).2 := by
  fun_induction verbatimSpan depth ts with
  | case1 => exact passes_watched (passes_look (passes_pure [] []))
  | case2 depth t ts hends =>
    refine passes_watched (passes_look ?_)
    refine passes_then hends ?_
    exact passes_pure _ _
  | case3 depth t ts hends depth' ih =>
    refine passes_watched (passes_look ?_)
    refine passes_else hends ?_
    exact passes_advance_bind ((ih.guarded (Nat.lt_succ_self _)).bind (passes_pure _ _))

/-! ## Clauses and items that leave no trace -/

/-- Over groups and single tokens, up to a kind that stops. -/
def skipTo (stops : Kind → Bool) : Unit → TokenCursor Unit := watched fun again _ => do
  match ← look with
  | [] => pure ()
  | t :: _ =>
    if stops t.kind then pure ()
    else do
      skipUnit
      again ()

/-- All tokens in front of a closing bracket. -/
theorem passes_skipTo_bracket (ts : List Token) :
    Passes (skipTo (· == .rbracket) ()) ts () (dropToBracket ts) := by
  fun_induction dropToBracket ts with
  | case1 => exact passes_watched (passes_look (passes_pure () []))
  | case2 t ts hkind =>
    refine passes_watched (passes_look ?_)
    refine passes_then (beq_iff_eq.2 hkind) ?_
    exact passes_pure () _
  | case3 t ts hkind ih =>
    refine passes_watched (passes_look ?_)
    refine passes_else (mt beq_iff_eq.1 hkind) ?_
    exact (passes_skipUnit _).bind (ih.guarded (length_dropUnit_lt t ts))

/-- All tokens in front of what ends a clause. -/
theorem passes_skipTo_where (ts : List Token) :
    Passes (skipTo endsWhere ()) ts () (dropPredicates ts) := by
  fun_induction dropPredicates ts with
  | case1 => exact passes_watched (passes_look (passes_pure () []))
  | case2 t ts hkind =>
    refine passes_watched (passes_look ?_)
    refine passes_then hkind ?_
    exact passes_pure () _
  | case3 t ts hkind ih =>
    refine passes_watched (passes_look ?_)
    refine passes_else hkind ?_
    exact (passes_skipUnit _).bind (ih.guarded (length_dropUnit_lt t ts))

/-- Over a where clause. -/
def skipWhere : TokenCursor Unit := do
  if headKind (← look) = .whereWord then skipTo endsWhere ()

/-- A clause, if it is there. -/
theorem passes_skipWhere (ts : List Token) : Passes skipWhere ts () (dropWhere ts) := by
  refine passes_look ?_
  fun_cases dropWhere ts with
  | case1 => exact passes_pure () []
  | case2 t ts hkind =>
    refine passes_then hkind ?_
    exact passes_skipTo_where _
  | case3 t ts hkind =>
    refine passes_else hkind ?_
    exact passes_pure () _

/-- Over `pub` and the group that may follow it. -/
def skipVisibility : TokenCursor Unit := do
  if headKind (← look) = .pub then do
    advance
    if headKind (← look) = .lparen then skipUnit

/-- A visibility, if it is there. -/
theorem passes_skipVisibility (ts : List Token) :
    Passes skipVisibility ts () (dropVisibility ts) := by
  refine passes_look ?_
  fun_cases dropVisibility ts with
  | case1 => exact passes_pure () []
  | case2 t ts hkind hparen =>
    refine passes_then hkind ?_
    refine passes_advance_bind (passes_look ?_)
    refine passes_then hparen ?_
    exact passes_skipUnit ts
  | case3 t ts hkind hparen =>
    refine passes_then hkind ?_
    refine passes_advance_bind (passes_look ?_)
    refine passes_else hparen ?_
    exact passes_pure () _
  | case4 t ts hkind =>
    refine passes_else hkind ?_
    exact passes_pure () _

/-- Over an item that is skipped. -/
def skipItem : Unit → TokenCursor Unit := watched fun again _ => do
  match ← look with
  | [] => pure ()
  | t :: _ =>
    if t.kind = .semicolon then advance
    else if t.kind = .lbrace then do
      skipUnit
      skipIf .semicolon
    else if t.kind.closes then advance
    else do
      skipUnit
      again ()

/-- An item that is not handled, to its body or its semicolon. -/
theorem passes_skipItem (ts : List Token) : Passes (skipItem ()) ts () (dropItem ts) := by
  fun_induction dropItem ts with
  | case1 => exact passes_watched (passes_look (passes_pure () []))
  | case2 t ts hsemicolon =>
    refine passes_watched (passes_look ?_)
    refine passes_then hsemicolon ?_
    exact passes_advance t ts
  | case3 t ts hsemicolon hbrace =>
    refine passes_watched (passes_look ?_)
    refine passes_else hsemicolon ?_
    refine passes_then hbrace ?_
    exact (passes_skipUnit _).bind (passes_skipIf _)
  | case4 t ts hsemicolon hbrace hcloses =>
    refine passes_watched (passes_look ?_)
    refine passes_else hsemicolon ?_
    refine passes_else hbrace ?_
    refine passes_then hcloses ?_
    exact passes_advance t ts
  | case5 t ts hsemicolon hbrace hcloses ih =>
    refine passes_watched (passes_look ?_)
    refine passes_else hsemicolon ?_
    refine passes_else hbrace ?_
    refine passes_else hcloses ?_
    exact (passes_skipUnit _).bind (ih.guarded (length_dropUnit_lt t ts))

/-- Past the sign of a double colon before an angle bracket. -/
def skipTurbofish : TokenCursor Unit := do
  let ts ← look
  if headKind ts = .colonColon ∧ headKind (ts.drop 1) = .lt then advance

/-- The colons in front of arguments. -/
theorem passes_skipTurbofish (ts : List Token) :
    Passes skipTurbofish ts () (dropTurbofish ts) := by
  refine passes_look ?_
  fun_cases dropTurbofish ts with
  | case1 s t ts hkinds =>
    refine passes_then hkinds ?_
    exact passes_advance s _
  | case2 s t ts hkinds =>
    refine passes_else hkinds ?_
    exact passes_pure () _
  | case3 ts hne =>
    refine passes_else ?_ (passes_pure () _)
    rintro ⟨-, hlt⟩
    rcases ts with _ | ⟨s, _ | ⟨t, ts⟩⟩
    · cases hlt
    · cases hlt
    · exact hne s t ts rfl

/-- Past a semicolon and over the length of an array. -/
def skipLength : TokenCursor Unit := do
  if headKind (← look) = .semicolon then do
    advance
    let _ ← skipRaw (· == .rbracket) 0

/-- The length of an array. -/
theorem passes_skipLength (ts : List Token) : Passes skipLength ts () (dropLength ts) := by
  refine passes_look ?_
  fun_cases dropLength ts with
  | case1 => exact passes_pure () []
  | case2 t ts hkind =>
    refine passes_then hkind ?_
    exact passes_advance_bind ((passes_skipRaw _ 0 ts).bind (passes_pure _ _))
  | case3 t ts hkind =>
    refine passes_else hkind ?_
    exact passes_pure () _

/-- Over the lifetime and the `mut` behind the sign of a reference. -/
def skipReference : TokenCursor Unit := do
  skipIf .lifetime
  skipIf .mutWord

/-- The lifetime and the `mut` of a reference. -/
theorem passes_skipReference (ts : List Token) :
    Passes skipReference ts () (dropReference ts) :=
  (passes_skipIf ts).bind (passes_skipIf _)

end Walk
end Rust
end Ferrotype

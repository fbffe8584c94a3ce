/-
# Walks over expressions

The one place where the parser goes back: a list of expressions that is not plainly separated by
commas is read again as raw text, from its bracket on, and so is the initializer of a constant that
does not end with its semicolon. An expression may be empty, in front of a comma or a bracket that
closes nothing; the list around it then takes the comma or fails, so no turn stands still.
-/

import Ferrotype.Proofs.Rust.Parse.Branch
import Ferrotype.Proofs.Rust.Walk.Skip

namespace Ferrotype
namespace Rust

open Cursor

namespace Walk

variable (eof : Token)

/-- An expression that is kept as text, up to a kind that stops. -/
def raw (stops : Kind → Bool) : TokenCursor Expr := do
  let tokens ← skipRaw stops 0
  pure (.raw (textOf tokens))

/-- Expressions up to the closing bracket, none if something else than a comma stands between
them. -/
def exprList (expr : TokenCursor Expr) (closer : Kind) :
    Unit → TokenCursor (Option (List Expr)) := watched fun again _ => do
  match ← look with
  | [] => raise (.expected closer eof .plain)
  | t :: _ =>
    if t.kind = closer then do
      advance
      pure (some [])
    else do
      let e ← expr
      match ← look with
      | [] => pure none
      | u :: _ =>
        if u.kind = .comma then do
          advance
          let more ← again ()
          pure (more.map (e :: ·))
        else if u.kind = closer then do
          advance
          pure (some [e])
        else pure none

/-- A list in brackets, or raw text from its bracket on. -/
def enclosed (expr : TokenCursor Expr) (closer : Kind) (node : List Expr → Expr) :
    TokenCursor Expr :=
  attempt .list (do
    advance
    let elements ← exprList eof expr closer ()
    pure (elements.map node)) (raw endsRaw)

/-- An expression. -/
def expr : Unit → TokenCursor Expr := watched fun self _ => do
  match ← look with
  | [] => raw endsRaw
  | t :: _ =>
    if t.kind = .ampersand then do
      advance
      self ()
    else if t.kind = .minus then do
      advance
      let e ← self ()
      pure (.unary "-" e)
    else match literalKind? t.kind with
      | some kind => taking (literalExpr t kind)
      | none =>
        if t.kind = .lbracket then enclosed eof (self ()) .rbracket .array
        else if t.kind = .lparen then enclosed eof (self ()) .rparen ofParenthesized
        else raw endsRaw

/-- The value of a constant behind `=`: an expression before a semicolon, or raw text. -/
def initializer : TokenCursor Expr :=
  attempt .initializer (do
    let e ← expr eof ()
    if headKind (← look) = .semicolon then pure (some e) else pure none) (raw (· == .semicolon))

/-- The value of a constant, if it has one. -/
def constValue : TokenCursor (Option Expr) := do
  if headKind (← look) = .eq then do
    advance
    let e ← initializer eof
    pure (some e)
  else pure none

/-! ## The parser is followed -/

section Follows

variable {eof}

/-- Raw text up to a stop is passed. -/
theorem passes_raw (stops : Kind → Bool) (ts : List Token) : Passes (raw stops) ts
    (.raw (textOf (rawSpan stops 0 ts).1)) (rawSpan stops 0 ts).2 :=
  (passes_skipRaw stops 0 ts).bind (passes_pure _ _)

/-- A literal that is never read to its end has an escape that is not closed. -/
theorem not_closes_of_literalExpr {t : Token} {kind : LiteralKind}
    (h : literalExpr t kind = .error (.escape .endless)) : ¬ClosesEscapes t.text.toList := by
  intro hcloses
  have hliteral := literalText_ne_endless hcloses
  unfold literalExpr at h
  cases hresult : literalText t with
  | ok text => cases kind <;> simp [hresult, Except.map] at h
  | error e =>
    rw [hresult] at hliteral h
    cases kind <;> simp_all [Except.map]

/-- The loop over a list tries what `parseList` says, if its members follow the parser of
expressions. The induction is on the number of tokens. -/
theorem tries_exprList {n : Nat} {m : TokenCursor Expr} (closer : Kind)
    (hm : ∀ us : List Token, us.length ≤ n → Follows eof m us (parseExpr eof us))
    (ts : List Token) (hts : ts.length ≤ n) :
    Tries eof (exprList eof m closer ()) ts (parseList eof closer ts) := by
  refine tries_watched (tries_look ?_)
  match ts with
  | [] =>
    rw [parseList]
    exact fails_raise (by simp) []
  | t :: ts =>
    by_cases hclose : t.kind = closer
    · refine tries_then hclose ?_
      rw [parseList, if_pos hclose]
      exact lands_of_passes (passes_advance_bind (passes_pure _ ts))
    refine tries_else hclose ?_
    rw [parseList, if_neg hclose]
    refine (hm _ hts).tries fun e _ => tries_look ?_
    obtain ⟨e, rest, hshorter⟩ := e
    cases rest with
    | nil => exact ⟨[], lands_of_passes (passes_pure none [])⟩
    | cons u us =>
      by_cases hcomma : u.kind = .comma
      · refine tries_then hcomma ((lands_of_passes (passes_advance u us)).tries ?_)
        have hlt : us.length < (t :: ts).length := Nat.lt_of_succ_lt_succ hshorter
        have hle : us.length ≤ n := Nat.le_trans (Nat.le_of_lt hlt) hts
        have hmore := (tries_exprList closer hm us hle).guarded hlt
        simp only [hcomma, if_true]
        rcases hresult : parseList eof closer us with e | _ | more
        · rw [hresult] at hmore
          exact Fails.bind hmore
        · rw [hresult] at hmore
          obtain ⟨vs, hmore⟩ := hmore
          exact ⟨vs, hmore.bind_lands (lands_of_passes (passes_pure _ _))⟩
        · rw [hresult] at hmore
          exact Lands.bind_lands hmore (lands_of_passes (passes_pure _ _))
      refine tries_else hcomma ?_
      simp only [hcomma, if_false]
      by_cases hend : u.kind = closer
      · refine tries_then hend ?_
        rw [if_pos hend]
        exact lands_of_passes (passes_advance_bind (passes_pure _ us))
      · refine tries_else hend ?_
        rw [if_neg hend]
        exact ⟨u :: us, lands_of_passes (passes_pure _ _)⟩
termination_by ts.length
decreasing_by exact hlt

/-- A list in brackets follows the parser: where the list fails, the cursor goes back to the bracket
and runs over the raw text. -/
theorem follows_enclosed {m : TokenCursor Expr} {t : Token} {ts : List Token} {closer : Kind}
    {node : List Expr → Expr} (h : Encloses t.kind closer node)
    (hlist : Tries eof (exprList eof m closer ()) ts (parseList eof closer ts)) :
    Follows eof (enclosed eof m closer node) (t :: ts) (parseExpr eof (t :: ts)) := by
  rw [parseExpr_of_encloses h]
  have hadvance : Lands advance (t :: ts) () ts := lands_of_passes (passes_advance t ts)
  match hresult : parseList eof closer ts with
  | .ok (some elements) =>
    rw [hresult] at hlist
    refine lands_attempt_some (hadvance.bind_lands (Lands.bind_lands hlist ?_))
    exact lands_of_passes (passes_pure _ _)
  | .ok none =>
    rw [hresult] at hlist
    obtain ⟨us, hlist⟩ := hlist
    refine lands_attempt_none (fun _ => h.opens_closes.1) (hadvance.bind_lands
      (hlist.bind_lands (lands_of_passes (passes_pure _ _)))) (passes_raw endsRaw _)
  | .error e =>
    rw [hresult] at hlist
    exact fails_attempt (hadvance.bind_fails (Fails.bind hlist))

/-- **The walk over an expression follows the parser of expressions.** -/
theorem follows_expr (ts : List Token) : Follows eof (expr eof ()) ts (parseExpr eof ts) := by
  refine follows_watched (follows_look ?_)
  match ts with
  | [] =>
    rw [parseExpr]
    exact follows_of_passes (passes_raw endsRaw [])
  | t :: rest =>
    -- An expression inside this one begins behind its first token.
    have hinner : ∀ us : List Token, us.length ≤ rest.length → Follows eof
        (Cursor.guarded (t :: rest) (expr eof ())) us (parseExpr eof us) := by
      intro us hus
      have hlt : us.length < (t :: rest).length := Nat.lt_succ_of_le hus
      exact (follows_expr us).guarded hlt
    have hlist := fun closer => tries_exprList closer hinner rest (Nat.le_refl _)
    by_cases hreference : t.kind = .ampersand
    · refine follows_then hreference ?_
      rw [parseExpr, if_pos hreference]
      refine follows_after (passes_advance t rest) ?_
      exact (hinner rest (Nat.le_refl _)).same (fun _ => rfl) fun _ => rfl
    refine follows_else hreference ?_
    by_cases hminus : t.kind = .minus
    · refine follows_then hminus ?_
      rw [parseExpr, if_neg hreference, if_pos hminus]
      refine follows_after (passes_advance t rest) ?_
      exact (hinner rest (Nat.le_refl _)).bind fun e _ => follows_pure rfl rfl
    refine follows_else hminus ?_
    cases hliteral : literalKind? t.kind with
    | some kind =>
      rw [parseExpr, if_neg hreference, if_neg hminus]
      simp only [hliteral]
      exact follows_taking_ok not_closes_of_literalExpr (fun _ => rfl) fun _ => rfl
    | none =>
      by_cases harray : t.kind = .lbracket
      · exact follows_then harray (follows_enclosed (.array harray) (hlist _))
      refine follows_else harray ?_
      by_cases hgroup : t.kind = .lparen
      · exact follows_then hgroup (follows_enclosed (.parentheses hgroup) (hlist _))
      refine follows_else hgroup ?_
      rw [parseExpr, if_neg hreference, if_neg hminus]
      simp only [hliteral]
      rw [if_neg harray, if_neg hgroup]
      exact follows_of_passes (passes_raw endsRaw _)
termination_by ts.length

/-- The walk over an initializer goes back to its start if the expression is not all of it. -/
theorem follows_initializer (ts : List Token) :
    Follows eof (initializer eof) ts (Rust.initializer eof ts) := by
  have hexpr := @follows_expr eof ts
  unfold Rust.initializer
  cases hresult : parseExpr eof ts with
  | error e =>
    rw [hresult] at hexpr
    exact fails_attempt (Fails.bind hexpr)
  | ok e =>
    rw [hresult] at hexpr
    simp only [bind, Except.bind]
    by_cases hend : headKind e.rest = .semicolon
    · rw [if_pos hend]
      refine lands_attempt_some (Lands.bind_lands hexpr (lands_of_passes (passes_look ?_)))
      exact passes_then hend (passes_pure _ _)
    · rw [if_neg hend]
      have hnone : Passes (if headKind e.rest = .semicolon then pure (some e.value) else
          pure none : TokenCursor (Option Expr)) e.rest none e.rest :=
        passes_else hend (passes_pure none e.rest)
      exact lands_attempt_none nofun
        (Lands.bind_lands hexpr (lands_of_passes (passes_look hnone))) (passes_raw _ ts)

/-- The value of a constant, or none. -/
theorem follows_constValue (ts : List Token) :
    Follows eof (constValue eof) ts (Rust.constValue eof ts) := by
  refine follows_look ?_
  cases ts with
  | nil => exact follows_else (by simp) (follows_pure rfl rfl)
  | cons t ts =>
    by_cases heq : t.kind = .eq
    · refine follows_then heq (follows_after (passes_advance t ts) ?_)
      rw [Rust.constValue, if_pos heq]
      exact (follows_initializer ts).bind fun e _ => follows_pure rfl rfl
    · refine follows_else heq ?_
      rw [Rust.constValue, if_neg heq]
      exact follows_pure rfl rfl

end Follows

end Walk
end Rust
end Ferrotype

/-
# Walks over attributes and type parameters

The loops of the parser over the arguments of an attribute, over the preamble of an item or a member
and over type parameters. In each of them a turn takes at least one token, also where an argument
has no name or a parameter is only a comma.
-/

import Ferrotype.Proofs.Rust.Walk.Skip
import Ferrotype.Rust.Parse.Attribute
import Ferrotype.Rust.Parse.Generics

namespace Ferrotype
namespace Rust

open Cursor

namespace Walk

variable (eof : Token)

/-! ## Arguments -/

/-- The value of an argument behind its path. -/
def argumentAfter (parts : List String) : TokenCursor Argument := do
  let ts ← look
  if headKind ts = .eq then do
    advance
    let value ← taking (argumentValue eof (ts.drop 1))
    pure ⟨pathText parts, some value⟩
  else if headKind ts = .lparen then do
    skipUnit
    let after ← look
    pure ⟨pathText parts, some (groupText ts after)⟩
  else if parts = [] then do
    advance
    pure ⟨pathText parts, none⟩
  else pure ⟨pathText parts, none⟩

/-- An argument of an attribute. -/
def argument : TokenCursor Argument := do
  let ts ← look
  if headKind ts = .string then do
    let text ← taking (literalText (ts.headD eof))
    pure ⟨"", some text⟩
  else do
    let parts ← skipPath
    argumentAfter eof parts

/-- The arguments of an attribute up to the closing parenthesis. -/
def arguments : Unit → TokenCursor (List Argument) := watched fun again _ => do
  match ← look with
  | [] => raise (.expected .rparen eof .closingArguments)
  | t :: _ =>
    if t.kind = .rparen then do
      advance
      pure []
    else do
      let arg ← argument eof
      skipIf .comma
      let more ← again ()
      pure (arg :: more)

/-- The arguments behind the name of an attribute. -/
def attributeArguments : TokenCursor (List Argument) := do
  let ts ← look
  if headKind ts = .eq then do
    advance
    let text ← taking (literalText ((ts.drop 1).headD eof))
    pure [⟨"", some text⟩]
  else if headKind ts = .lparen then do
    advance
    arguments eof ()
  else pure []

/-- An attribute behind its opening bracket. -/
def attributeBody : TokenCursor Attribute := do
  let parts ← skipPath
  let args ← attributeArguments eof
  skipTo (· == .rbracket) ()
  let _ ← expects eof .rbracket (.closingAttribute (pathText parts))
  pure ⟨pathText parts, args⟩

/-- The preamble of an item or a member. -/
def preamble : Unit → TokenCursor Preamble := watched fun again _ => do
  match ← look with
  | [] => pure ⟨[], []⟩
  | t :: ts =>
    if t.kind = .doc then do
      advance
      let more ← again ()
      pure (more.consDoc t.text)
    else if t.kind = .hash ∧ headKind ts = .lbracket then do
      advance
      advance
      let a ← attributeBody eof
      let more ← again ()
      pure (more.consAttribute a)
    else pure ⟨[], []⟩

/-! ## Type parameters -/

/-- Past a token that starts a parameter. -/
def skipStart : TokenCursor Unit := do
  if startsParameter (headKind (← look)) then advance

/-- The names of the type parameters up to the closing angle bracket. -/
def parameterNames : Unit → TokenCursor (List String) := watched fun again _ => do
  match ← look with
  | [] => raise (.expected .gt eof .closingGenerics)
  | t :: _ =>
    if t.kind = .gt then do
      advance
      pure []
    else do
      skipStart
      skipBounds 0
      skipIf .comma
      let more ← again ()
      pure ((if t.kind = .identifier then [t.text] else []) ++ more)

/-- The names of the type parameters, if a list of them stands here. -/
def generics : TokenCursor (List String) := do
  if headKind (← look) = .lt then do
    advance
    parameterNames eof ()
  else pure []

/-! ## The parsers are followed -/

section Follows

variable {eof}

/-- A literal that is never read to its end has an escape that is not closed. -/
theorem not_closes_of_literalText {t : Token} (h : literalText t = .error (.escape .endless)) :
    ¬ClosesEscapes t.text.toList :=
  fun hcloses => literalText_ne_endless hcloses h

/-- The same of the value of an argument. -/
theorem not_closes_of_argumentValue {ts : List Token}
    (h : argumentValue eof ts = .error (.escape .endless)) :
    ¬ClosesEscapes (ts.headD eof).text.toList := by
  unfold argumentValue at h
  dsimp only at h
  split at h
  · exact not_closes_of_literalText h
  · cases h

/-- What stands behind the key of an argument. -/
theorem follows_argumentAfter (parts : List String) (ts : List Token) :
    Follows eof (argumentAfter eof parts) ts (Rust.argumentAfter eof parts ts) := by
  fun_cases Rust.argumentAfter eof parts ts with
  | case1 =>
    refine follows_look (follows_else (by simp) (follows_else (by simp) ?_))
    by_cases hparts : parts = []
    · exact follows_then hparts (follows_of_passes ⟨[], rfl, rfl⟩)
    · exact follows_else hparts (follows_pure rfl rfl)
  | case2 key t rest hkind =>
    refine follows_look (follows_then hkind (follows_after (passes_advance t rest) ?_))
    exact follows_taking not_closes_of_argumentValue fun value => follows_pure rfl rfl
  | case3 key t rest h₁ hkind =>
    refine follows_look (follows_else h₁ (follows_then hkind ?_))
    exact follows_after (passes_skipUnit _) (follows_look (follows_pure rfl rfl))
  | case4 key t rest h₁ h₂ hparts =>
    refine follows_look (follows_else h₁ (follows_else h₂ (follows_then hparts ?_)))
    exact follows_after (passes_advance t rest) (follows_pure rfl rfl)
  | case5 key t rest h₁ h₂ hparts =>
    refine follows_look (follows_else h₁ (follows_else h₂ (follows_else hparts ?_)))
    exact follows_pure rfl rfl

/-- An argument. -/
theorem follows_argument (t : Token) (ts : List Token) :
    Follows eof (argument eof) (t :: ts) (Rust.argument eof t ts) := by
  refine follows_look ?_
  rw [Rust.argument]
  by_cases hkind : t.kind = .string
  · rw [if_pos hkind]
    refine follows_then hkind ?_
    exact follows_taking not_closes_of_literalText fun text => follows_pure rfl rfl
  · rw [if_neg hkind]
    refine follows_else hkind (follows_after (passes_skipPath _) ?_)
    have hafter := @follows_argumentAfter eof (path (t :: ts)).1 (path (t :: ts)).2
    split
    · rename_i e he
      rw [he] at hafter
      exact hafter
    · rename_i r hr
      rw [hr] at hafter
      exact hafter

/-- Arguments up to the closing parenthesis. The induction is on the number of tokens. -/
theorem follows_arguments (ts : List Token) :
    Follows eof (arguments eof ()) ts (Rust.arguments eof ts) := by
  induction ts using Rust.arguments.induct with
  | case1 =>
    rw [Rust.arguments]
    refine follows_watched (follows_look ?_)
    exact follows_raise (by simp) []
  | case2 t ts hkind =>
    rw [Rust.arguments, if_pos hkind]
    refine follows_watched (follows_look (follows_then hkind ?_))
    exact follows_after (passes_advance t ts) (follows_pure rfl rfl)
  | case3 t ts hkind ih =>
    rw [Rust.arguments, if_neg hkind]
    refine follows_watched (follows_look (follows_else hkind ?_))
    refine (follows_argument t ts).bind fun arg harg => follows_after (passes_skipIf _) ?_
    have hlt := Nat.lt_of_le_of_lt (length_dropIf_le .comma arg.rest) arg.shorter
    exact ((ih arg).guarded hlt).bind fun more _ => follows_pure rfl rfl

/-- The arguments of an attribute. -/
theorem follows_attributeArguments (ts : List Token) :
    Follows eof (attributeArguments eof) ts (Rust.attributeArguments eof ts) := by
  refine follows_look ?_
  cases ts with
  | nil =>
    refine follows_else (by simp) (follows_else (by simp) ?_)
    exact follows_pure rfl rfl
  | cons t ts =>
    rw [Rust.attributeArguments]
    by_cases heq : t.kind = .eq
    · rw [if_pos heq]
      refine follows_then heq (follows_after (passes_advance t ts) ?_)
      exact follows_taking not_closes_of_literalText fun text => follows_pure rfl rfl
    · rw [if_neg heq]
      refine follows_else heq ?_
      by_cases hparen : t.kind = .lparen
      · rw [if_pos hparen]
        refine follows_then hparen (follows_after (passes_advance t ts) ?_)
        exact (follows_arguments ts).same (fun _ => rfl) fun _ => rfl
      · rw [if_neg hparen]
        exact follows_else hparen (follows_pure rfl rfl)

/-- An attribute inside its brackets. -/
theorem follows_attributeBody (ts : List Token) :
    Follows eof (attributeBody eof) ts (Rust.attributeBody eof ts) := by
  refine follows_after (passes_skipPath ts) ?_
  refine (follows_attributeArguments _).bind fun args _ => ?_
  refine follows_after (passes_skipTo_bracket _) ?_
  exact (follows_expects _ _ _ _).bind fun closing _ => follows_pure rfl rfl

/-- Documentation and attributes in front of an item. The induction is on the number of tokens. -/
theorem follows_preamble (ts : List Token) :
    Follows eof (preamble eof ()) ts (Rust.preamble eof ts) := by
  induction ts using Rust.preamble.induct with
  | case1 =>
    rw [Rust.preamble]
    exact follows_watched (follows_look (follows_pure rfl rfl))
  | case2 t ts hkind ih =>
    rw [Rust.preamble, if_pos hkind]
    refine follows_watched (follows_look (follows_then hkind ?_))
    refine follows_after (passes_advance t ts) ?_
    exact (ih.guarded (Nat.lt_succ_self _)).bind fun more _ => follows_pure rfl rfl
  | case3 t ts h₁ hkind ih =>
    rw [Rust.preamble, if_neg h₁, if_pos hkind]
    refine follows_watched (follows_look (follows_else h₁ (follows_then hkind ?_)))
    refine follows_after (passes_advance t ts) (follows_after (passes_advance_drop ts) ?_)
    refine (follows_attributeBody _).bind fun a ha => ?_
    have hlt : a.rest.length < (t :: ts).length := by
      have := a.shorter
      simp only [List.length_drop, List.length_cons] at this ⊢
      omega
    exact ((ih a).guarded hlt).bind fun more _ => follows_pure rfl rfl
  | case4 t ts h₁ h₂ =>
    rw [Rust.preamble, if_neg h₁, if_neg h₂]
    refine follows_watched (follows_look (follows_else h₁ (follows_else h₂ ?_)))
    exact follows_pure rfl rfl

/-! ## Type parameters -/

/-- The first token of a parameter, if it starts one. -/
theorem passes_skipStart (t : Token) (ts : List Token) :
    Passes skipStart (t :: ts) () (if startsParameter t.kind then ts else t :: ts) := by
  refine passes_look ?_
  by_cases hstarts : startsParameter t.kind
  · rw [if_pos hstarts]
    exact passes_then hstarts (passes_advance t ts)
  · rw [if_neg hstarts]
    exact passes_else hstarts (passes_pure () _)

/-- Parameters up to the closing bracket. The induction is on the number of tokens. -/
theorem follows_parameterNames (ts : List Token) :
    Follows eof (parameterNames eof ()) ts (Rust.parameterNames eof ts) := by
  induction ts using Rust.parameterNames.induct with
  | case1 =>
    rw [Rust.parameterNames]
    refine follows_watched (follows_look ?_)
    exact follows_raise (by simp) []
  | case2 t ts hkind =>
    rw [Rust.parameterNames, dif_pos hkind]
    refine follows_watched (follows_look (follows_then hkind ?_))
    exact follows_after (passes_advance t ts) (follows_pure rfl rfl)
  | case3 t ts hkind hlt ih =>
    rw [Rust.parameterNames, dif_neg hkind]
    refine follows_watched (follows_look (follows_else hkind ?_))
    refine follows_after (passes_skipStart t ts) (follows_after (passes_skipBounds 0 _) ?_)
    refine follows_after (passes_skipIf _) ?_
    exact (ih.guarded hlt).bind fun more _ => follows_pure rfl rfl

/-- Parameters with their brackets, or none. -/
theorem follows_generics (ts : List Token) :
    Follows eof (generics eof) ts (Rust.generics eof ts) := by
  refine follows_look ?_
  cases ts with
  | nil => exact follows_else (by simp) (follows_pure rfl rfl)
  | cons t ts =>
    rw [Rust.generics]
    by_cases hkind : t.kind = .lt
    · rw [if_pos hkind]
      refine follows_then hkind (follows_after (passes_advance t ts) ?_)
      exact (follows_parameterNames ts).same (fun _ => rfl) fun _ => rfl
    · rw [if_neg hkind]
      exact follows_else hkind (follows_pure rfl rfl)

end Follows

end Walk
end Rust
end Ferrotype

/-
# Reading types

References, `Box` and the other wrappers leave no trace; parentheses around one type neither,
unless a comma follows it. Function pointers, trait objects, raw pointers and qualified paths are
kept as text. Among the arguments of a path, lifetimes, constants and bindings are left out.
-/

import Ferrotype.Rust.Parse.Span
import Ferrotype.Rust.Parse.Path
import Ferrotype.Rust.Type

namespace Ferrotype
namespace Rust

/-- The identifiers that start a type kept as text. -/
def verbatimWords : List String := ["unsafe", "extern", "for", "_"]

/-- Whether a token starts a type that is kept as text. -/
def startsVerbatim (t : Token) : Bool :=
  match t.kind with
  | .star | .fn | .dyn | .impl | .lt => true
  | .identifier => verbatimWords.contains t.text
  | _ => false

/-- What starts a type that is kept as text does not end it. -/
theorem endsVerbatim_of_startsVerbatim {t : Token} (h : startsVerbatim t) :
    endsVerbatim t.kind = false := by
  unfold startsVerbatim at h
  split at h <;> simp_all [endsVerbatim]

/-- Whether a token starts an argument that is a constant. -/
def startsConstant : Kind → Bool
  | .number | .lbrace | .minus | .trueWord | .falseWord | .char | .string => true
  | _ => false

/-- The rest after an argument of a path that is no type: a lifetime, a constant or a binding. -/
def skippedArgument? (t : Token) (ts : List Token) : Option (Parsed Unit (t :: ts).length) :=
  if t.kind = .lifetime then some (.past () t ts)
  else if h : startsConstant t.kind ∨
      t.kind = .identifier ∧ (headKind ts = .eq ∨ headKind ts = .colon) then
    some ⟨(), dropBounds 0 (t :: ts), by
      refine length_dropBounds_lt ?_ 0 ts
      rcases h with h | h
      · unfold startsConstant at h
        split at h <;> simp_all [endsBounds]
      · simp [endsBounds, h.1]⟩
  else none

/-- The type that stands in parentheses: nothing is the unit, one type is itself unless a comma
follows it. -/
def ofElements (elements : List TypeExpr) (trailingComma : Bool) : TypeExpr :=
  match elements, trailingComma with
  | [], _ => .primitive "()"
  | [element], false => element
  | elements, _ => .tuple elements

/-- The tokens without a `::` that stands before an angle bracket. -/
def dropTurbofish : List Token → List Token
  | s :: t :: ts => if s.kind = .colonColon ∧ t.kind = .lt then t :: ts else s :: t :: ts
  | ts => ts

/-- No more is left behind the colons in front of arguments. -/
theorem length_dropTurbofish_le (ts : List Token) : (dropTurbofish ts).length ≤ ts.length := by
  fun_cases dropTurbofish ts <;> simp

/-- The tokens without a semicolon and the length of an array. -/
def dropLength : List Token → List Token
  | [] => []
  | t :: ts =>
    if t.kind = .semicolon then (rawSpan (· == .rbracket) 0 ts).2 else t :: ts

/-- No more is left behind the length of an array. -/
theorem length_dropLength_le (ts : List Token) : (dropLength ts).length ≤ ts.length := by
  fun_cases dropLength ts with
  | case1 => simp
  | case2 t ts =>
    have := length_rawSpan_le (· == .rbracket) 0 ts
    simp only [List.length_cons]
    omega
  | case3 => simp

/-- The tokens behind the sign of a reference, without lifetime and `mut`. -/
def dropReference (ts : List Token) : List Token := dropIf .mutWord (dropIf .lifetime ts)

/-- No more is left behind what makes a type a reference. -/
theorem length_dropReference_le (ts : List Token) : (dropReference ts).length ≤ ts.length :=
  Nat.le_trans (length_dropIf_le _ _) (length_dropIf_le _ _)

mutual

/-- A type. -/
def parseType (eof : Token) (ts : List Token) : Result (Parsed TypeExpr ts.length) :=
  match ts with
  | [] => .error (.expectedType eof)
  | t :: rest =>
    if t.kind = .ampersand then do
      let inner ← parseType eof (dropReference rest)
      .ok (inner.widen (length_dropReference_le rest)).later
    else if t.kind = .lparen then do
      let elements ← parseElements eof rest false
      .ok (elements.map fun (es, comma) => ofElements es comma).later
    else if t.kind = .lbracket then do
      let element ← parseType eof rest
      let closing ← expect eof .rbracket .closingArray (dropLength element.rest)
      have hle := Nat.le_trans (length_dropLength_le element.rest) (Nat.le_of_lt element.shorter)
      .ok ((closing.map fun _ => .sequence element.value).widen hle).later
    else if t.kind = .bang then .ok (.past (.primitive "!") t rest)
    else if h : startsVerbatim t then
      .ok ⟨.verbatim (textOf (verbatimSpan 0 (t :: rest)).1), (verbatimSpan 0 (t :: rest)).2,
        length_verbatimSpan_lt (endsVerbatim_of_startsVerbatim h) 0 rest⟩
    else if h : (path (t :: rest)).1 = [] then
      .error (.expectedType ((path (t :: rest)).2.headD eof))
    else
      let name := pathText (path (t :: rest)).1
      match hrest : dropTurbofish (path (t :: rest)).2 with
      | [] => .ok ⟨.classify name [], [], Nat.succ_pos _⟩
      | u :: us =>
        have hlt : (u :: us).length < (t :: rest).length := by
          rw [← hrest]
          exact Nat.lt_of_le_of_lt (length_dropTurbofish_le _) (length_path_lt h)
        if u.kind = .lt then do
          let args ← parseArguments eof us
          .ok ((args.map (TypeExpr.classify name)).later.later.widen hlt)
        else .ok ((Parsed.before (TypeExpr.classify name []) (u :: us)).widen hlt)
termination_by (ts.length, 0)
decreasing_by
  all_goals apply Prod.Lex.left
  · exact Nat.lt_succ_of_le (length_dropReference_le rest)
  · exact Nat.lt_succ_self _
  · exact Nat.lt_succ_self _
  · exact Nat.lt_of_succ_lt hlt

/-- Types up to a closing parenthesis, and whether a comma follows the last one; the flag says
whether a comma stands before the first. -/
def parseElements (eof : Token) (ts : List Token) (comma : Bool) :
    Result (Parsed (List TypeExpr × Bool) ts.length) :=
  match ts with
  | [] => .error (.expected .rparen eof .closingTuple)
  | t :: rest =>
    if t.kind = .rparen then .ok (.past ([], comma) t rest)
    else do
      let element ← parseType eof (t :: rest)
      match hrest : element.rest with
      | [] => .error (.expected .comma eof .betweenElements)
      | u :: us =>
        have hle : (u :: us).length ≤ (t :: rest).length := by
          rw [← hrest]
          exact Nat.le_of_lt element.shorter
        if u.kind = .comma then do
          let more ← parseElements eof us true
          .ok ((more.map fun (es, c) => (element.value :: es, c)).later.widen hle)
        else if u.kind = .rparen then
          .ok ((Parsed.past ([element.value], false) u us).widen hle)
        else .error (.expected .comma u .betweenElements)
termination_by (ts.length, 1)
decreasing_by
  · exact Prod.Lex.right _ Nat.zero_lt_one
  · exact Prod.Lex.left _ _ hle

/-- The type arguments up to a closing angle bracket. -/
def parseArguments (eof : Token) (ts : List Token) : Result (Parsed (List TypeExpr) ts.length) :=
  match ts with
  | [] => .error (.expected .gt eof .closingTypeArguments)
  | t :: rest =>
    if t.kind = .gt then .ok (.past [] t rest)
    else do
      let argument : Parsed (Option TypeExpr) (t :: rest).length ←
        match skippedArgument? t rest with
        | some skipped => .ok (skipped.map fun _ => none)
        | none => do
          let type ← parseType eof (t :: rest)
          .ok (type.map some)
      match hrest : argument.rest with
      | [] => .error (.expected .gt eof .closingTypeArguments)
      | u :: us =>
        have hle : (u :: us).length ≤ (t :: rest).length := by
          rw [← hrest]
          exact Nat.le_of_lt argument.shorter
        if u.kind = .comma then do
          let more ← parseArguments eof us
          .ok ((more.map (argument.value.toList ++ ·)).later.widen hle)
        else if u.kind = .gt then
          .ok ((Parsed.past argument.value.toList u us).widen hle)
        else .error (.expected .gt u .closingTypeArguments)
termination_by (ts.length, 1)
decreasing_by
  · exact Prod.Lex.left _ _ hle
  · exact Prod.Lex.right _ Nat.zero_lt_one

end

end Rust
end Ferrotype

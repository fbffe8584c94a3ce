/-
# Reading attributes

The documentation comments and attributes before an item or a member make up its preamble. An
attribute named `doc` with a text gives a line of documentation, as a documentation comment does.
Whatever else stands between the brackets of an attribute is skipped.
-/

import Ferrotype.Rust.Parse.Path
import Ferrotype.Rust.Item

namespace Ferrotype
namespace Rust

/-- The texts inside a group that was skipped, separated by blanks. -/
def groupText (before after : List Token) : String :=
  let group := before.take (before.length - after.length)
  Text.join " " ((group.drop 1).dropLast.map (·.text))

/-- The value behind `=` in an argument: the text of a string, or any other token as it stands. -/
def argumentValue [Text.StandIn] (eof : Token) (ts : List Token) : Result String :=
  let t := ts.headD eof
  if t.kind = .string then literalText t else .ok t.text

/-- What follows the path of an argument: its value, or none for a path alone. A token that starts
no argument is skipped. -/
def argumentAfter [Text.StandIn] (eof : Token) (parts : List String) (ts : List Token) :
    Result (Argument × List Token) :=
  let key := pathText parts
  match ts with
  | [] => .ok (⟨key, none⟩, [])
  | t :: rest =>
    if t.kind = .eq then do
      let value ← argumentValue eof rest
      .ok (⟨key, some value⟩, rest.drop 1)
    else if t.kind = .lparen then
      .ok (⟨key, some (groupText ts (dropUnit ts))⟩, dropUnit ts)
    else if parts = [] then .ok (⟨key, none⟩, rest)
    else .ok (⟨key, none⟩, ts)

/-- Behind the key of an argument no more is left. -/
theorem length_of_argumentAfter [Text.StandIn] {eof : Token} {parts : List String} {ts : List Token}
    {r : Argument × List Token} (h : argumentAfter eof parts ts = .ok r) :
    r.2.length ≤ ts.length ∧ (parts = [] → ts ≠ [] → r.2.length < ts.length) := by
  revert h
  fun_cases argumentAfter eof parts ts with
  | case1 key => rintro ⟨⟩; simp
  | case2 key t rest h =>
    cases hvalue : argumentValue eof rest with
    | error e => rintro ⟨⟩
    | ok value =>
      rintro ⟨⟩
      simp only [List.length_drop, List.length_cons]
      omega
  | case3 key t rest h₁ h₂ =>
    rintro ⟨⟩
    have := length_dropUnit_lt t rest
    exact ⟨Nat.le_of_lt this, fun _ _ => this⟩
  | case4 key t rest h₁ h₂ h₃ => rintro ⟨⟩; simp
  | case5 key t rest h₁ h₂ h₃ => rintro ⟨⟩; simp [h₃]

/-- One argument of an attribute. -/
def argument [Text.StandIn] (eof t : Token) (ts : List Token) :
    Result (Parsed Argument (t :: ts).length) :=
  if t.kind = .string then do
    let text ← literalText t
    .ok (.past ⟨"", some text⟩ t ts)
  else
    match h : argumentAfter eof (path (t :: ts)).1 (path (t :: ts)).2 with
    | .error e => .error e
    | .ok r => .ok ⟨r.1, r.2, by
        have hafter := length_of_argumentAfter h
        have hle := length_path_le (t :: ts)
        by_cases hparts : (path (t :: ts)).1 = []
        · by_cases hrest : (path (t :: ts)).2 = []
          · rw [hrest] at hafter
            have := hafter.1
            simp only [List.length_nil, List.length_cons] at this ⊢
            omega
          · exact Nat.lt_of_lt_of_le (hafter.2 hparts hrest) hle
        · exact Nat.lt_of_le_of_lt hafter.1 (length_path_lt hparts)⟩

/-- The arguments of an attribute up to the closing parenthesis. -/
def arguments [Text.StandIn] (eof : Token) (ts : List Token) :
    Result (Parsed (List Argument) ts.length) :=
  match ts with
  | [] => .error (.expected .rparen eof .closingArguments)
  | t :: rest =>
    if t.kind = .rparen then .ok (.past [] t rest)
    else do
      let arg ← argument eof t rest
      have hlt : (dropIf .comma arg.rest).length < (t :: rest).length :=
        Nat.lt_of_le_of_lt (length_dropIf_le _ _) arg.shorter
      let more ← arguments eof (dropIf .comma arg.rest)
      .ok ((more.map (arg.value :: ·)).later.widen hlt)
termination_by ts.length
decreasing_by exact hlt

/-- The arguments behind the name of an attribute: a value after `=`, a list in parentheses, or
none. -/
def attributeArguments [Text.StandIn] (eof : Token) (ts : List Token) :
    Result (Parsed (List Argument) (ts.length + 1)) :=
  match ts with
  | [] => .ok (.before [] [])
  | t :: rest =>
    if t.kind = .eq then do
      let text ← literalText (rest.headD eof)
      .ok ⟨[⟨"", some text⟩], rest.drop 1, by simp only [List.length_drop, List.length_cons]; omega⟩
    else if t.kind = .lparen then do
      let args ← arguments eof rest
      .ok args.later.later
    else .ok (.before [] (t :: rest))

/-- The tokens from the next closing bracket outside all groups on. -/
def dropToBracket : List Token → List Token
  | [] => []
  | t :: ts => if t.kind = .rbracket then t :: ts else dropToBracket (dropUnit (t :: ts))
termination_by ts => ts.length
decreasing_by exact length_dropUnit_lt t ts

/-- In front of a closing bracket no more is left. -/
theorem length_dropToBracket_le (ts : List Token) : (dropToBracket ts).length ≤ ts.length := by
  fun_induction dropToBracket ts with
  | case1 => simp
  | case2 => simp
  | case3 t ts _ ih => exact Nat.le_trans ih (length_dropUnit_le _)

/-- An attribute behind its opening bracket. -/
def attributeBody [Text.StandIn] (eof : Token) (ts : List Token) :
    Result (Parsed Attribute ts.length) := do
  let name := pathText (path ts).1
  let args ← attributeArguments eof (path ts).2
  let closing ← expect eof .rbracket (.closingAttribute name) (dropToBracket args.rest)
  .ok ⟨⟨name, args.value⟩, closing.rest, by
    have h₁ := closing.shorter
    have h₂ := length_dropToBracket_le args.rest
    have h₃ := args.shorter
    have h₄ := length_path_le ts
    omega⟩

/-- A line of documentation without the blank that stands before its text. -/
def docLine (text : String) : String :=
  match text.toList with
  | ' ' :: rest => String.ofList rest
  | _ => text

namespace Preamble

/-- A preamble with a line of documentation before it. -/
def consDoc (text : String) (p : Preamble) : Preamble := { p with docs := docLine text :: p.docs }

/-- A preamble with an attribute before it. -/
def consAttribute (a : Attribute) (p : Preamble) : Preamble :=
  match a with
  | ⟨"doc", ⟨"", value⟩ :: _⟩ => p.consDoc (value.getD "")
  | _ => { p with attributes := a :: p.attributes }

end Preamble

/-- The preamble of an item or a member. -/
def preamble [Text.StandIn] (eof : Token) (ts : List Token) :
    Result (Parsed Preamble (ts.length + 1)) :=
  match ts with
  | [] => .ok (.before ⟨[], []⟩ [])
  | t :: rest =>
    if t.kind = .doc then do
      let more ← preamble eof rest
      .ok (more.map (·.consDoc t.text)).later
    else if t.kind = .hash ∧ headKind rest = .lbracket then do
      let a ← attributeBody eof (rest.drop 1)
      have hlt : a.rest.length < (t :: rest).length := by
        have := a.shorter
        simp only [List.length_drop, List.length_cons] at this ⊢
        omega
      let more ← preamble eof a.rest
      .ok ((more.map (·.consAttribute a.value)).widen hlt).later
    else .ok (.before ⟨[], []⟩ (t :: rest))
termination_by ts.length
decreasing_by
  · exact Nat.lt_succ_self _
  · exact hlt

/-- Tokens that start with no preamble are left. -/
theorem preamble_of_none [Text.StandIn] {eof : Token} {ts : List Token} (hdoc : headKind ts ≠ .doc)
    (hhash : headKind ts = .hash → headKind (ts.drop 1) ≠ .lbracket) :
    preamble eof ts = .ok (.before ⟨[], []⟩ ts) := by
  cases ts with
  | nil => rw [preamble]
  | cons t ts =>
    rw [headKind_cons] at hdoc hhash
    rw [preamble, if_neg hdoc, if_neg fun h => hhash h.1 h.2]

end Rust
end Ferrotype

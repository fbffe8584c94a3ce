/-
# Generic parameters and where clauses

Of the parameters only the names of types are kept; lifetimes, constants, bounds and defaults are
left out, and so is a where clause as a whole.
-/

import Ferrotype.Rust.Parse.Path

namespace Ferrotype
namespace Rust

/-- Whether a token starts a parameter and is no part of its bounds. -/
def startsParameter : Kind → Bool
  | .lifetime | .const | .identifier => true
  | _ => false

/-- What is left after a parameter that starts with the given token, and after its comma. -/
def dropParameter (t : Token) (ts : List Token) : List Token :=
  dropIf .comma (dropBounds 0 (if startsParameter t.kind then ts else t :: ts))

/-- Less is left behind a parameter. -/
theorem length_dropParameter_lt {t : Token} (h : t.kind ≠ .gt) (ts : List Token) :
    (dropParameter t ts).length < (t :: ts).length := by
  unfold dropParameter
  have hle := fun us => length_dropIf_le .comma (dropBounds 0 us)
  split
  · have := hle ts
    have := length_dropBounds_le 0 ts
    simp only [List.length_cons]
    omega
  · by_cases hcomma : t.kind = .comma
    · simp [dropBounds, endsBounds, hcomma, dropIf]
    · have := hle (t :: ts)
      have := length_dropBounds_lt (t := t) (by simp [endsBounds, h, hcomma]) 0 ts
      omega

/-- The names of the type parameters up to the closing angle bracket. -/
def parameterNames (eof : Token) (ts : List Token) : Result (Parsed (List String) ts.length) :=
  match ts with
  | [] => .error (.expected .gt eof .closingGenerics)
  | t :: rest =>
    if h : t.kind = .gt then .ok (.past [] t rest)
    else do
      have hlt := length_dropParameter_lt h rest
      let more ← parameterNames eof (dropParameter t rest)
      let names := if t.kind = .identifier then [t.text] else []
      .ok ((more.map (names ++ ·)).later.widen hlt)
termination_by ts.length
decreasing_by exact hlt

/-- The names of the type parameters, if a list of them stands here. -/
def generics (eof : Token) (ts : List Token) : Result (Parsed (List String) (ts.length + 1)) :=
  match ts with
  | [] => .ok (.before [] [])
  | t :: rest =>
    if t.kind = .lt then do
      let names ← parameterNames eof rest
      .ok names.later.later
    else .ok (.before [] (t :: rest))

/-- Whether a token ends a where clause. -/
def endsWhere : Kind → Bool
  | .lbrace | .semicolon | .eq => true
  | _ => false

/-- What is left after the predicates of a where clause. -/
def dropPredicates : List Token → List Token
  | [] => []
  | t :: ts => if endsWhere t.kind then t :: ts else dropPredicates (dropUnit (t :: ts))
termination_by ts => ts.length
decreasing_by exact length_dropUnit_lt t ts

/-- No more is left behind predicates. -/
theorem length_dropPredicates_le (ts : List Token) : (dropPredicates ts).length ≤ ts.length := by
  fun_induction dropPredicates ts with
  | case1 => simp
  | case2 => simp
  | case3 t ts _ ih => exact Nat.le_trans ih (length_dropUnit_le _)

/-- The tokens without a where clause. -/
def dropWhere : List Token → List Token
  | [] => []
  | t :: ts => if t.kind = .whereWord then dropPredicates (t :: ts) else t :: ts

/-- No more is left behind a clause. -/
theorem length_dropWhere_le (ts : List Token) : (dropWhere ts).length ≤ ts.length := by
  fun_cases dropWhere ts with
  | case1 => simp
  | case2 t ts => exact length_dropPredicates_le _
  | case3 => simp

end Rust
end Ferrotype

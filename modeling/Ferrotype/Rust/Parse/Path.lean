/-
# Paths and the bounds of generics

A path is a list of segments between `::`, which may also stand before the first one. `dropBounds`
runs over what follows a generic parameter or an argument that is left out, up to the comma or
the closing angle bracket that belongs to the list.
-/

import Ferrotype.Rust.Parse.Basic
import Ferrotype.Text.Pieces

namespace Ferrotype
namespace Rust

/-- Whether a token can be a segment of a path. -/
def isSegment : Kind → Bool
  | .identifier | .type | .const | .enum | .struct | .impl | .fn | .dyn => true
  | _ => false

/-- The segments of a path and the rest. A `::` before an angle bracket is left. -/
def segments : List Token → List String × List Token
  | [] => ([], [])
  | [t] => if isSegment t.kind then ([t.text], []) else ([], [t])
  | t :: s :: ts =>
    if isSegment t.kind then
      if s.kind = .colonColon ∧ headKind ts ≠ .lt then
        (t.text :: (segments ts).1, (segments ts).2)
      else ([t.text], s :: ts)
    else ([], t :: s :: ts)

/-- No more is left behind a path. -/
theorem length_segments_le (ts : List Token) : (segments ts).2.length ≤ ts.length := by
  fun_induction segments ts <;> simp_all
  omega

/-- Less is left behind a path that starts with a name. -/
theorem length_segments_lt {ts : List Token} (h : (segments ts).1 ≠ []) :
    (segments ts).2.length < ts.length := by
  revert h
  fun_cases segments ts with
  | case4 t s ts =>
    have := length_segments_le ts
    simp
    omega
  | case1 => simp
  | case2 => simp
  | case3 => simp
  | case5 => simp
  | case6 => simp

/-- The segments of a path that may start with `::`, and the rest. -/
def path (ts : List Token) : List String × List Token := segments (dropIf .colonColon ts)

/-- No more is left behind a path that may start with colons. -/
theorem length_path_le (ts : List Token) : (path ts).2.length ≤ ts.length :=
  Nat.le_trans (length_segments_le _) (length_dropIf_le _ _)

/-- Less is left if it has a part. -/
theorem length_path_lt {ts : List Token} (h : (path ts).1 ≠ []) :
    (path ts).2.length < ts.length :=
  Nat.lt_of_lt_of_le (length_segments_lt h) (length_dropIf_le _ _)

/-- The text of a path. -/
def pathText (parts : List String) : String := Text.join "::" parts

/-- The angle brackets that are open after a token. -/
def angleDepth (depth : Nat) : Kind → Nat
  | .lt => depth + 1
  | .gt => depth - 1
  | _ => depth

/-- Whether a token ends the bounds of a parameter. -/
def endsBounds (kind : Kind) : Bool := kind == .comma || kind == .gt

/-- What is left after bounds and defaults: a comma or a closing angle bracket at the depth of the
list, or nothing. -/
def dropBounds (depth : Nat) : List Token → List Token
  | [] => []
  | t :: ts =>
    if depth = 0 ∧ endsBounds t.kind then t :: ts
    else dropBounds (angleDepth depth t.kind) (dropUnit (t :: ts))
termination_by ts => ts.length
decreasing_by exact length_dropUnit_lt t ts

/-- No more is left behind bounds. -/
theorem length_dropBounds_le (depth : Nat) (ts : List Token) :
    (dropBounds depth ts).length ≤ ts.length := by
  fun_induction dropBounds depth ts with
  | case1 => simp
  | case2 => simp
  | case3 depth t ts _ ih => exact Nat.le_trans ih (length_dropUnit_le _)

/-- Less is left behind bounds that do not end at once. -/
theorem length_dropBounds_lt {t : Token} (h : endsBounds t.kind = false) (depth : Nat)
    (ts : List Token) : (dropBounds depth (t :: ts)).length < (t :: ts).length := by
  rw [dropBounds, if_neg (by simp [h])]
  exact Nat.lt_of_le_of_lt (length_dropBounds_le _ _) (length_dropUnit_lt t ts)

end Rust
end Ferrotype

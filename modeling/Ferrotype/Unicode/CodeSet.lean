/-
# Sets of code points given by their boundaries

A property of characters that a standard publishes as ranges is kept here as the sorted list of
its boundaries: the first number opens a range, the second closes it (and is outside), the third
opens the next, and so on. A list of odd length leaves its last range open.
-/

namespace Ferrotype
namespace Unicode

/-- Whether `n` lies in the set whose sorted boundaries are given. -/
def within : List Nat → Nat → Bool
  | [], _ => false
  | [lo], n => decide (lo ≤ n)
  | lo :: hi :: rest, n =>
    if n < lo then false else if n < hi then true else within rest n

@[simp] theorem within_nil (n : Nat) : within [] n = false := rfl

@[simp] theorem within_singleton (lo n : Nat) : within [lo] n = decide (lo ≤ n) := rfl

theorem within_cons_cons (lo hi : Nat) (rest : List Nat) (n : Nat) :
    within (lo :: hi :: rest) n =
      if n < lo then false else if n < hi then true else within rest n := rfl

/-- A number below the first boundary is outside. -/
theorem within_of_lt {lo n : Nat} (h : n < lo) : ∀ rest, within (lo :: rest) n = false
  | [] => by simp [within]; omega
  | hi :: rest => by simp [within, h]

end Unicode
end Ferrotype

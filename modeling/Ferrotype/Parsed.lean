/-
# Reading from the front of a list

A reader takes what it needs from the front of a list, of tokens or of characters, and leaves the
rest. The type of its result carries a bound: what is left is shorter than `n`, so that recursion
over the rest is well founded by its type.
-/

namespace Ferrotype

/-- A value and the elements after it, of which there are fewer than `n`. -/
@[ext]
structure Parsed (τ α : Type) (n : Nat) where
  value : α
  rest : List τ
  shorter : rest.length < n

namespace Parsed

variable {τ α β : Type} {n m : Nat}

/-- A value that took no element. -/
def before (value : α) (rest : List τ) : Parsed τ α (rest.length + 1) :=
  ⟨value, rest, Nat.lt_succ_self _⟩

/-- A value that took the first element. -/
def past (value : α) (first : τ) (rest : List τ) : Parsed τ α (first :: rest).length :=
  ⟨value, rest, Nat.lt_succ_self _⟩

/-- The same under a larger bound. -/
def widen (p : Parsed τ α n) (h : n ≤ m) : Parsed τ α m :=
  ⟨p.value, p.rest, Nat.lt_of_lt_of_le p.shorter h⟩

/-- The same behind one more element. -/
def later (p : Parsed τ α n) : Parsed τ α (n + 1) := p.widen (Nat.le_succ n)

/-- Another value before the same elements. -/
def map (f : α → β) (p : Parsed τ α n) : Parsed τ β n := ⟨f p.value, p.rest, p.shorter⟩

@[simp] theorem value_before (value : α) (rest : List τ) : (before value rest).value = value := rfl

@[simp] theorem rest_before (value : α) (rest : List τ) : (before value rest).rest = rest := rfl

@[simp] theorem value_past (value : α) (first : τ) (rest : List τ) :
    (past value first rest).value = value := rfl

@[simp] theorem rest_past (value : α) (first : τ) (rest : List τ) :
    (past value first rest).rest = rest := rfl

@[simp] theorem value_widen (p : Parsed τ α n) (h : n ≤ m) : (p.widen h).value = p.value := rfl

@[simp] theorem rest_widen (p : Parsed τ α n) (h : n ≤ m) : (p.widen h).rest = p.rest := rfl

@[simp] theorem value_later (p : Parsed τ α n) : p.later.value = p.value := rfl

@[simp] theorem rest_later (p : Parsed τ α n) : p.later.rest = p.rest := rfl

@[simp] theorem value_map (f : α → β) (p : Parsed τ α n) : (p.map f).value = f p.value := rfl

@[simp] theorem rest_map (f : α → β) (p : Parsed τ α n) : (p.map f).rest = p.rest := rfl

end Parsed
end Ferrotype

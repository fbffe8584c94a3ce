/-
# Cursors that log their moves

A parser of lists can also be seen as a machine: a cursor stands in a list, looks at what is left,
moves on past one element, or goes back to an earlier place. `Cursor` is such a machine that logs
every move. Its loops and recursions are `watched`: another turn or a nested call runs only if the
cursor has moved on since the last one began, and otherwise the cursor stops as `idle`. A cursor
that never stops so goes round each of its loops with a step forward every time, which is why it
ends.

`Passes` is the case of a cursor that gives a value without ever going back.
-/

namespace Ferrotype

/-! ## Runs -/

/-- A move of a cursor in a list of `τ`; `ρ` are the occasions on which it may go back. -/
inductive Move (τ ρ : Type)
  /-- Past the next element. -/
  | on (t : τ)
  /-- Back over as many elements. -/
  | back (occasion : ρ) (count : Nat)
deriving Repr, DecidableEq

/-- Why a cursor stops without a value. -/
inductive Stop (ε : Type)
  /-- It met an error. -/
  | raised (e : ε)
  /-- A turn of a loop, or a nested call, would begin where the last one began. -/
  | idle
deriving Repr, DecidableEq

/-- What comes of a cursor: a value or the reason to stop, what is left, and the moves. -/
structure Run (τ ρ ε α : Type) where
  outcome : Except (Stop ε) α
  left : List τ
  moves : List (Move τ ρ)

/-- A cursor, by what it does in front of a list. -/
def Cursor (τ ρ ε α : Type) := List τ → Run τ ρ ε α

namespace Run

variable {τ ρ ε α : Type}

/-- The same run behind moves that were made before. -/
def behind (moves : List (Move τ ρ)) (r : Run τ ρ ε α) : Run τ ρ ε α :=
  { r with moves := moves ++ r.moves }

end Run

namespace Move

variable {τ ρ : Type}

/-- The positions on the way from `p`, the first and the last one included. -/
def positions (p : Nat) : List (Move τ ρ) → List Nat
  | [] => [p]
  | .on _ :: moves => p :: positions (p + 1) moves
  | .back _ count :: moves => p :: positions (p - count) moves

/-- The position after moves from `p`. -/
def finish (p : Nat) : List (Move τ ρ) → Nat
  | [] => p
  | .on _ :: moves => finish (p + 1) moves
  | .back _ count :: moves => finish (p - count) moves

/-- A place that two lists of moves pass is passed by the first one, or by the other one from where
the first one ends. -/
theorem mem_positions_append {p q : Nat} {moves more : List (Move τ ρ)}
    (h : q ∈ positions p (moves ++ more)) :
    q ∈ positions p moves ∨ q ∈ positions (finish p moves) more := by
  fun_induction positions p moves with
  | case1 p => exact .inr h
  | case2 p t moves ih =>
    rcases List.mem_cons.1 h with rfl | h
    · exact .inl (List.mem_cons_self)
    · exact (ih h).imp (List.mem_cons_of_mem _) id
  | case3 p occasion count moves ih =>
    rcases List.mem_cons.1 h with rfl | h
    · exact .inl (List.mem_cons_self)
    · exact (ih h).imp (List.mem_cons_of_mem _) id

/-- Moves end where the last of them do. -/
theorem finish_append (p : Nat) (moves more : List (Move τ ρ)) :
    finish p (moves ++ more) = finish (finish p moves) more := by
  fun_induction finish p moves with
  | case1 => rfl
  | case2 p t moves ih => exact ih
  | case3 p occasion count moves ih => exact ih

end Move

namespace Cursor

variable {τ ρ ε α β : Type}

/-! ## Moving -/

/-- One cursor and then another, if the first gives a value. -/
def andThen (m : Cursor τ ρ ε α) (f : α → Cursor τ ρ ε β) : Cursor τ ρ ε β := fun ts =>
  match m ts with
  | ⟨.ok a, us, moves⟩ => (f a us).behind moves
  | ⟨.error stop, us, moves⟩ => ⟨.error stop, us, moves⟩

instance : Monad (Cursor τ ρ ε) where
  pure a := fun ts => ⟨.ok a, ts, []⟩
  bind := andThen

/-- All that is left, without a move. -/
def look : Cursor τ ρ ε (List τ) := fun ts => ⟨.ok ts, ts, []⟩

/-- A move past the next element; at the end there is none. -/
def advance : Cursor τ ρ ε Unit
  | [] => ⟨.ok (), [], []⟩
  | t :: ts => ⟨.ok (), ts, [.on t]⟩

/-- A stop by an error. -/
def raise (e : ε) : Cursor τ ρ ε α := fun ts => ⟨.error (.raised e), ts, []⟩

/-- A try and, if it gives nothing, the way back to where it began and a scan from there. -/
def attempt (occasion : ρ) (tried : Cursor τ ρ ε (Option α)) (scan : Cursor τ ρ ε α) :
    Cursor τ ρ ε α := fun ts =>
  match tried ts with
  | ⟨.ok (some a), us, moves⟩ => ⟨.ok a, us, moves⟩
  | ⟨.ok none, us, moves⟩ => (scan ts).behind (moves ++ [.back occasion (ts.length - us.length)])
  | ⟨.error stop, us, moves⟩ => ⟨.error stop, us, moves⟩

/-! ## Loops -/

/-- A cursor that runs only in front of fewer elements than `ts`. -/
def guarded (ts : List τ) (m : Cursor τ ρ ε α) : Cursor τ ρ ε α := fun us =>
  if us.length < ts.length then m us else ⟨.error .idle, us, []⟩

/-- A loop or a recursion: `body` is one turn and may begin others, each of which has to stand
behind the place where the turn that begins it began. -/
def watched (body : (β → Cursor τ ρ ε α) → β → Cursor τ ρ ε α) (b : β) : Cursor τ ρ ε α := fun ts =>
  body
    (fun b us =>
      if _h : us.length < ts.length then watched body b us else ⟨.error .idle, us, []⟩)
    b ts
termination_by ts => ts.length

/-- A loop is its body, with a guard around every further turn. -/
theorem watched_apply (body : (β → Cursor τ ρ ε α) → β → Cursor τ ρ ε α) (b : β) (ts : List τ) :
    watched body b ts = body (fun b => guarded ts (watched body b)) b ts := by
  rw [watched]
  rfl

/-- A turn of a loop that has to move, also if it is the last one. -/
def moving (turn : Cursor τ ρ ε α) : Cursor τ ρ ε α := fun ts =>
  if (turn ts).left.length < ts.length then turn ts else ⟨.error .idle, ts, []⟩

/-- A loop whose every turn moves: it goes round while `holds`. -/
def looping (holds : β → List τ → Bool) (turn : (β → Cursor τ ρ ε α) → β → Cursor τ ρ ε α)
    (leave : β → α) : β → Cursor τ ρ ε α := watched fun again b => do
  if holds b (← look) then moving (turn again b) else pure (leave b)

/-! ## Moving on only -/

/-- The cursor passes from `ts` to `us` over every element between them, without going back, and
gives `a`. -/
def Passes (m : Cursor τ ρ ε α) (ts : List τ) (a : α) (us : List τ) : Prop :=
  ∃ passed, ts = passed ++ us ∧ m ts = ⟨.ok a, us, passed.map .on⟩

section Passes

variable {m : Cursor τ ρ ε α} {f : α → Cursor τ ρ ε β} {ts us vs : List τ} {a : α} {b : β}

/-- A cursor that gives a value stays where it is. -/
theorem passes_pure (a : α) (ts : List τ) : Passes (pure a : Cursor τ ρ ε α) ts a ts :=
  ⟨[], rfl, rfl⟩

/-- Advancing leaves one token behind. -/
theorem passes_advance (t : τ) (ts : List τ) :
    Passes (advance : Cursor τ ρ ε Unit) (t :: ts) () ts :=
  ⟨[t], rfl, rfl⟩

/-- At the end of a list advancing stays there. -/
theorem passes_advance_drop (ts : List τ) :
    Passes (advance : Cursor τ ρ ε Unit) ts () (ts.drop 1) := by
  cases ts with
  | nil => exact ⟨[], rfl, rfl⟩
  | cons t ts => exact passes_advance t ts

/-- Looking at what is ahead does not move the cursor. -/
theorem passes_look {f : List τ → Cursor τ ρ ε β} (h : Passes (f ts) ts b us) :
    Passes (look >>= f) ts b us :=
  h

/-- A branch is passed if its condition holds and its first part is. -/
theorem passes_then {c : Prop} [Decidable c] {m' : Cursor τ ρ ε α} (hc : c) (h : Passes m ts a us) :
    Passes (if c then m else m') ts a us := by
  rwa [if_pos hc]

/-- A branch is passed if its condition fails and its second part is. -/
theorem passes_else {c : Prop} [Decidable c] {m' : Cursor τ ρ ε α} (hc : ¬c)
    (h : Passes m' ts a us) : Passes (if c then m else m') ts a us := by
  rwa [if_neg hc]

/-- One cursor after another ends where the second one does. -/
theorem Passes.bind (h : Passes m ts a us) (hf : Passes (f a) us b vs) :
    Passes (m >>= f) ts b vs := by
  obtain ⟨passed, rfl, hm⟩ := h
  obtain ⟨more, rfl, hf⟩ := hf
  refine ⟨passed ++ more, (List.append_assoc _ _ _).symm, ?_⟩
  change andThen m f _ = _
  rw [andThen, hm, List.map_append]
  simp only [hf]
  rfl

/-- A move past an element and what follows it. -/
theorem passes_advance_bind {t : τ} {f : Unit → Cursor τ ρ ε β} (h : Passes (f ()) ts b us) :
    Passes (advance >>= f) (t :: ts) b us :=
  (passes_advance t ts).bind h

/-- A cursor never goes back. -/
theorem Passes.suffix (h : Passes m ts a us) : us <:+ ts := by
  obtain ⟨passed, rfl, -⟩ := h
  exact List.suffix_append _ _

/-- A turn may begin behind the place where the last one began. -/
theorem Passes.guarded (h : Passes m us a vs) (hlt : us.length < ts.length) :
    Passes (m.guarded ts) us a vs := by
  obtain ⟨passed, heq, hm⟩ := h
  exact ⟨passed, heq, by rw [Cursor.guarded, if_pos hlt, hm]⟩

/-- A loop is passed if its body is, the guard of the next turn included. -/
theorem passes_watched {γ : Type} {body : (γ → Cursor τ ρ ε α) → γ → Cursor τ ρ ε α} {c : γ}
    (h : Passes (body (fun c => guarded ts (watched body c)) c) ts a us) :
    Passes (watched body c) ts a us := by
  obtain ⟨passed, heq, hm⟩ := h
  exact ⟨passed, heq, by rw [watched_apply, hm]⟩

/-- A cursor that got ahead meets no watch for turns that do not. -/
theorem Passes.moving (h : Passes m ts a us) (hlt : us.length < ts.length) :
    Passes m.moving ts a us := by
  obtain ⟨passed, heq, hm⟩ := h
  exact ⟨passed, heq, by rw [Cursor.moving, hm, if_pos hlt]⟩

section Looping

variable {holds : β → List τ → Bool} {turn : (β → Cursor τ ρ ε α) → β → Cursor τ ρ ε α}
  {leave : β → α}

/-- A loop goes on with one more turn that gets ahead. -/
theorem passes_turn (hholds : holds b ts)
    (h : Passes (turn (fun b => guarded ts (looping holds turn leave b)) b) ts a us)
    (hlt : us.length < ts.length) : Passes (looping holds turn leave b) ts a us := by
  refine passes_watched (passes_look (passes_then hholds ?_))
  exact h.moving hlt

/-- A loop is left where its condition does not hold. -/
theorem passes_leave (h : holds b ts = false) :
    Passes (looping holds turn leave b) ts (leave b) ts :=
  passes_watched (passes_look (passes_else (by rw [h]; exact Bool.noConfusion) (passes_pure _ _)))

end Looping

end Passes

/-! ## Taking elements -/

/-- The next element, if there is one. -/
def take : Cursor τ ρ ε (List τ) := do
  let ts ← look
  advance
  pure (ts.take 1)

/-- Taking gives the next token and moves behind it. -/
theorem passes_take (t : τ) (ts : List τ) :
    Passes (take : Cursor τ ρ ε (List τ)) (t :: ts) [t] ts :=
  passes_look (passes_advance_bind (passes_pure _ _))

theorem passes_take_nil : Passes (take : Cursor τ ρ ε (List τ)) [] [] [] :=
  ⟨[], rfl, rfl⟩

/-- As many elements as a list has, one after the other. -/
def takeAll : List τ → Cursor τ ρ ε (List τ)
  | [] => pure []
  | _ :: xs => do
    let t ← moving take
    let more ← takeAll xs
    pure (t ++ more)

/-- Tokens that stand at the front are taken one by one. -/
theorem passes_takeAll (xs ts : List τ) :
    Passes (takeAll xs : Cursor τ ρ ε (List τ)) (xs ++ ts) xs ts := by
  induction xs with
  | nil => exact passes_pure [] ts
  | cons x xs ih =>
    refine ((passes_take x (xs ++ ts)).moving (Nat.lt_succ_self _)).bind ?_
    exact ih.bind (passes_pure _ _)

end Cursor
end Ferrotype

/-
# Cursors in token lists

The parser as a machine: a cursor in the token list that logs its moves. It goes back on two
occasions only, from a list of expressions that failed and from the initializer of a constant that
does not reach its semicolon, each time to the start of what it tried, and then runs over it as raw
text. `Travels` are the ways that consist of such moves. A way never leaves the tokens
(`Travels.position_le`).

`Follows` says that a cursor does what a parser says: it travels to where the parser leaves off and
gives the same value or meets the same error. So what a parser leaves is an end of what it was given
(`Follows.suffix`). The lemmas compose `Follows` along the steps of a parser. A text with an escape
that is never closed has no value, and its cursor is idle: the search for the end of the escape
begins again where it began.
-/

import Ferrotype.Proofs.Cursor
import Ferrotype.Proofs.Rust.Parse.Escape
import Ferrotype.Proofs.Rust.Parse.Separated

namespace Ferrotype
namespace Rust

open Cursor

/-- The occasions on which the parser goes back. -/
inductive Occasion
  | list
  | initializer
deriving Repr, DecidableEq

/-- A cursor in a token list. -/
abbrev TokenCursor := Cursor Token Occasion ParseError

/-! ## Ways -/

/-- The moves that lead from `ts` to `us`: over one token after the other, and back from what was
tried to its start only if the next moves run straight on from there. -/
inductive Travels : List Token → List (Move Token Occasion) → List Token → Prop
  | stay (ts : List Token) : Travels ts [] ts
  | on (t : Token) {ts us : List Token} {moves : List (Move Token Occasion)}
      (h : Travels ts moves us) : Travels (t :: ts) (.on t :: moves) us
  | again (occasion : Occasion) {scanned vs us ws : List Token}
      {tried moves : List (Move Token Occasion)}
      (hstart : occasion = .list → (headKind (scanned ++ vs)).opens)
      (htried : Travels (scanned ++ vs) tried us) (h : Travels vs moves ws) :
      Travels (scanned ++ vs)
        (tried ++ .back occasion ((scanned ++ vs).length - us.length) ::
          (scanned.map .on ++ moves)) ws

namespace Travels

variable {ts us vs : List Token} {moves more : List (Move Token Occasion)}

/-- One way after the other is a way. -/
theorem trans (h : Travels ts moves us) (hmore : Travels us more vs) :
    Travels ts (moves ++ more) vs := by
  induction h with
  | stay => exact hmore
  | on t _ ih => exact .on t (ih hmore)
  | again occasion hstart htried _ _ ih =>
    simpa using again occasion hstart htried (ih hmore)

/-- Moves straight on. -/
theorem straight (passed us : List Token) : Travels (passed ++ us) (passed.map .on) us := by
  induction passed with
  | nil => exact .stay us
  | cons t passed ih => exact .on t ih

/-- A way ends at an end of the tokens. -/
theorem suffix (h : Travels ts moves us) : us <:+ ts := by
  induction h with
  | stay ts => exact List.suffix_refl _
  | on t _ ih => exact ih.trans (List.suffix_cons _ _)
  | again _ _ _ _ _ ih => exact ih.trans (List.suffix_append _ _)

/-- No more tokens are left at the end. -/
theorem length_le (h : Travels ts moves us) : us.length ≤ ts.length := h.suffix.length_le

/-- Moves straight on end as many places further. -/
theorem finish_straight (p : Nat) (passed : List Token) :
    Move.finish p (passed.map .on : List (Move Token Occasion)) = p + passed.length := by
  induction passed generalizing p with
  | nil => rfl
  | cons t passed ih =>
    rw [List.map_cons, Move.finish, ih, List.length_cons]
    omega

/-- They pass no place beyond that. -/
theorem le_of_mem_straight {p q : Nat} {passed : List Token}
    (h : q ∈ Move.positions p (passed.map .on : List (Move Token Occasion))) :
    q ≤ p + passed.length := by
  induction passed generalizing p with
  | nil =>
    rw [List.mem_singleton.1 h]
    exact Nat.le_add_right _ _
  | cons t passed ih =>
    rw [List.length_cons]
    rcases List.mem_cons.1 h with rfl | h
    · omega
    · have := ih h
      omega

/-- A way ends where the tokens that are left begin. -/
theorem finish_add (h : Travels ts moves us) (p : Nat) :
    Move.finish p moves + us.length = p + ts.length := by
  induction h generalizing p with
  | stay => rfl
  | on t _ ih =>
    rw [Move.finish, ih, List.length_cons]
    omega
  | @again _ scanned vs us ws _ _ _ htried _ ihtried ih =>
    have hle := htried.length_le
    have hback := ihtried p
    rw [Move.finish_append, Move.finish, Move.finish_append, finish_straight, ih]
    simp only [List.length_append] at *
    omega

/-- **A cursor never passes the end of the tokens.** -/
theorem position_le (h : Travels ts moves us) {p q : Nat} (hq : q ∈ Move.positions p moves) :
    q ≤ p + ts.length := by
  induction h generalizing p with
  | stay =>
    rw [Move.positions, List.mem_singleton] at hq
    omega
  | on t _ ih =>
    rcases List.mem_cons.1 hq with rfl | hq
    · omega
    · have := ih hq
      rw [List.length_cons]
      omega
  | @again _ scanned vs us ws tried moves _ htried h ihtried ih =>
    have hle := htried.length_le
    have hback := htried.finish_add p
    rw [List.length_append] at hle hback ⊢
    rcases Move.mem_positions_append hq with hq | hq
    · rw [← List.length_append]
      exact ihtried hq
    · rcases List.mem_cons.1 hq with rfl | hq
      · omega
      · have hstart : Move.finish p tried - (scanned.length + vs.length - us.length) = p := by omega
        rw [List.length_append, hstart] at hq
        rcases Move.mem_positions_append hq with hq | hq
        · have := le_of_mem_straight hq
          omega
        · rw [finish_straight] at hq
          have := ih hq
          omega

end Travels

/-! ## Cursors that follow a parser -/

/-- What a cursor stops with where a parser has an error. -/
def stopOf : ParseError → Stop ParseError
  | .escape .endless => .idle
  | e => .raised e

/-- The cursor travels from `ts` to `us` and gives `a`. -/
def Lands {α : Type} (m : TokenCursor α) (ts : List Token) (a : α) (us : List Token) : Prop :=
  ∃ moves, m ts = ⟨.ok a, us, moves⟩ ∧ Travels ts moves us

/-- The cursor travels from `ts` to somewhere and stops with an error. If an escape without an end
is the reason, then one of the tokens has it. -/
structure Fails {α : Type} (eof : Token) (m : TokenCursor α) (ts : List Token) (e : ParseError) :
    Prop where
  stops : ∃ us moves, m ts = ⟨.error (stopOf e), us, moves⟩ ∧ Travels ts moves us
  endless : e = .escape .endless → ∃ t ∈ eof :: ts, ¬ClosesEscapes t.text.toList

/-- What a parser gives: a value and the tokens behind it. -/
class Reading (ρ : Type) (α : outParam Type) where
  value : ρ → α
  rest : ρ → List Token

instance {α : Type} {n : Nat} : Reading (Parsed α n) α := ⟨Parsed.value, Parsed.rest⟩

instance {α : Type} : Reading (α × List Token) α := ⟨Prod.fst, Prod.snd⟩

/-- The cursor does in front of `ts` what a parser says. -/
def Follows {ρ α : Type} [Reading ρ α] (eof : Token) (m : TokenCursor α) (ts : List Token) :
    Result ρ → Prop
  | .ok p => Lands m ts (Reading.value p) (Reading.rest p)
  | .error e => Fails eof m ts e

section Steps

variable {α β ρ σ : Type} [Reading ρ α] [Reading σ β] {eof : Token} {m : TokenCursor α}
  {f : α → TokenCursor β} {ts us vs : List Token} {a : α} {b : β} {e : ParseError}

/-! ### One step -/

/-- What passes lands where it passes to. -/
theorem lands_of_passes (h : Passes m ts a us) : Lands m ts a us := by
  obtain ⟨passed, rfl, hm⟩ := h
  exact ⟨_, hm, .straight passed us⟩

/-- What passes follows a parser that always succeeds. -/
theorem follows_of_passes {p : ρ} (h : Passes m ts (Reading.value p) (Reading.rest p)) :
    Follows eof m ts (.ok p) :=
  lands_of_passes h

/-- A value follows a result with that value. -/
theorem follows_pure {p : ρ} (hvalue : Reading.value p = a) (hrest : Reading.rest p = ts) :
    Follows eof (pure a) ts (.ok p) := by
  subst hvalue hrest
  exact follows_of_passes (passes_pure _ _)

/-- Any error but an endless escape is raised. -/
theorem stopOf_of_ne (h : e ≠ .escape .endless) : stopOf e = .raised e := by
  unfold stopOf
  split
  · contradiction
  · rfl

/-- Such an error is met where it is raised. -/
theorem fails_raise (h : e ≠ .escape .endless) (ts : List Token) :
    Fails eof (raise e : TokenCursor α) ts e where
  stops := ⟨ts, [], by rw [stopOf_of_ne h]; rfl, .stay ts⟩
  endless heq := absurd heq h

/-- Raising it follows a parser that fails with it. -/
theorem follows_raise (h : e ≠ .escape .endless) (ts : List Token) :
    Follows eof (raise e) ts (.error e : Result ρ) :=
  fails_raise h ts

/-! ### One step after another -/

/-- A cursor lands at an end of the tokens. -/
theorem Lands.suffix (h : Lands m ts a us) : us <:+ ts := by
  obtain ⟨moves, -, htravels⟩ := h
  exact htravels.suffix

/-- What a parser leaves, if it does not fail, is an end of the tokens. -/
theorem Follows.suffix {x : Result ρ} (h : Follows eof m ts x) {r : ρ} (hr : x = .ok r) :
    Reading.rest r <:+ ts := by
  subst hr
  exact Lands.suffix h

/-- One cursor after the other lands where the second one does. -/
theorem Lands.bind_lands (h : Lands m ts a us) (hf : Lands (f a) us b vs) :
    Lands (m >>= f) ts b vs := by
  obtain ⟨moves, hm, htravels⟩ := h
  obtain ⟨more, hf, hmore⟩ := hf
  refine ⟨moves ++ more, ?_, htravels.trans hmore⟩
  change andThen m f ts = _
  rw [andThen, hm]
  simp only [hf]
  rfl

/-- It fails where the second one does. -/
theorem Lands.bind_fails (h : Lands m ts a us) (hf : Fails eof (f a) us e) :
    Fails eof (m >>= f) ts e := by
  refine ⟨?_, fun heq => ?_⟩
  · obtain ⟨moves, hm, htravels⟩ := h
    obtain ⟨⟨vs, more, hf, hmore⟩, -⟩ := hf
    refine ⟨vs, moves ++ more, ?_, htravels.trans hmore⟩
    change andThen m f ts = _
    rw [andThen, hm]
    simp only [hf]
    rfl
  · obtain ⟨t, hmem, hopen⟩ := hf.endless heq
    refine ⟨t, ?_, hopen⟩
    rcases List.mem_cons.1 hmem with rfl | hmem
    · exact List.mem_cons_self
    · exact List.mem_cons_of_mem _ (h.suffix.subset hmem)

/-- It fails where the first one does. -/
theorem Fails.bind (h : Fails eof m ts e) : Fails eof (m >>= f) ts e := by
  refine ⟨?_, h.endless⟩
  obtain ⟨us, moves, hm, htravels⟩ := h.stops
  refine ⟨us, moves, ?_, htravels⟩
  change andThen m f ts = _
  rw [andThen, hm]

/-- Behind a cursor that lands, the rest may follow a parser. -/
theorem Lands.follows {r : Result σ} (h : Lands m ts a us) (hf : Follows eof (f a) us r) :
    Follows eof (m >>= f) ts r := by
  cases r with
  | ok p => exact h.bind_lands hf
  | error e => exact h.bind_fails hf

/-- After a forward move the cursor does what a parser says. -/
theorem follows_after {r : Result σ} (h : Passes m ts a us)
    (hf : Follows eof (f a) us r) : Follows eof (m >>= f) ts r :=
  (lands_of_passes h).follows hf

/-- A cursor and a parser that take their steps together. -/
theorem Follows.bind {x : Result ρ} {g : ρ → Result σ}
    (h : Follows eof m ts x)
    (hf : ∀ p, x = .ok p → Follows eof (f (Reading.value p)) (Reading.rest p) (g p)) :
    Follows eof (m >>= f) ts (x >>= g) := by
  cases x with
  | ok p => exact Lands.follows h (hf p rfl)
  | error e => exact Fails.bind h

/-- The same reading under another bound. -/
theorem Follows.same {ρ' : Type} [Reading ρ' α] {x : Result ρ} {g : ρ → ρ'} (h : Follows eof m ts x)
    (hvalue : ∀ p, Reading.value (g p) = Reading.value p)
    (hrest : ∀ p, Reading.rest (g p) = Reading.rest p) :
    Follows eof m ts (x >>= fun p => .ok (g p)) := by
  cases x with
  | ok p =>
    change Lands m ts (Reading.value (g p)) (Reading.rest (g p))
    rw [hvalue, hrest]
    exact h
  | error e => exact h

/-! ### Turns -/

/-- A guard lets a cursor land that got ahead. -/
theorem Lands.guarded (h : Lands m us a vs) (hlt : us.length < ts.length) :
    Lands (m.guarded ts) us a vs := by
  obtain ⟨moves, hm, htravels⟩ := h
  exact ⟨moves, by rw [Cursor.guarded, if_pos hlt, hm], htravels⟩

/-- A guard lets a cursor fail that got ahead. -/
theorem Fails.guarded (h : Fails eof m us e) (hlt : us.length < ts.length) :
    Fails eof (m.guarded ts) us e := by
  obtain ⟨⟨vs, moves, hm, htravels⟩, hendless⟩ := h
  exact ⟨⟨vs, moves, by rw [Cursor.guarded, if_pos hlt, hm], htravels⟩, hendless⟩

/-- A guard lets a cursor follow that got ahead. -/
theorem Follows.guarded {x : Result ρ} (h : Follows eof m us x) (hlt : us.length < ts.length) :
    Follows eof (m.guarded ts) us x := by
  cases x with
  | ok p => exact Lands.guarded h hlt
  | error e => exact Fails.guarded h hlt

section Watched

variable {γ : Type} {body : (γ → TokenCursor α) → γ → TokenCursor α} {c : γ}

/-- A loop lands where its body does, the guards of further turns included. -/
theorem lands_watched (h : Lands (body (fun c => Cursor.guarded ts (watched body c)) c) ts a us) :
    Lands (watched body c) ts a us := by
  obtain ⟨moves, hm, htravels⟩ := h
  exact ⟨moves, (watched_apply body c ts).trans hm, htravels⟩

/-- A loop fails where its body does. -/
theorem fails_watched
    (h : Fails eof (body (fun c => Cursor.guarded ts (watched body c)) c) ts e) :
    Fails eof (watched body c) ts e := by
  obtain ⟨⟨vs, moves, hm, htravels⟩, hendless⟩ := h
  exact ⟨⟨vs, moves, (watched_apply body c ts).trans hm, htravels⟩, hendless⟩

/-- A loop follows what its body follows. -/
theorem follows_watched {x : Result ρ}
    (h : Follows eof (body (fun c => Cursor.guarded ts (watched body c)) c) ts x) :
    Follows eof (watched body c) ts x := by
  cases x with
  | ok p => exact lands_watched h
  | error e => exact fails_watched h

end Watched

/-- Looking at the tokens decides what is followed. -/
theorem follows_look {f : List Token → TokenCursor β} {r : Result σ}
    (h : Follows eof (f ts) ts r) : Follows eof (look >>= f) ts r :=
  follows_after (passes_pure ts ts) h

/-- A branch is followed if its condition holds and its first part follows. -/
theorem follows_then {m' : TokenCursor α} {r : Result ρ} {c : Prop} [Decidable c] (hc : c)
    (h : Follows eof m ts r) : Follows eof (if c then m else m') ts r := by
  rwa [if_pos hc]

/-- A branch is followed if its condition fails and its second part follows. -/
theorem follows_else {m' : TokenCursor α} {r : Result ρ} {c : Prop} [Decidable c] (hc : ¬c)
    (h : Follows eof m' ts r) : Follows eof (if c then m else m') ts r := by
  rwa [if_neg hc]

end Steps

/-! ### Texts of tokens -/

/-- A move past a token with whose text something is computed that can fail. -/
def taking {α : Type} (x : Result α) : TokenCursor α := do
  advance
  fun ts => ⟨x.mapError stopOf, ts, []⟩

/-- A token that is read as a text is taken, whatever comes of it. -/
theorem taking_apply {α : Type} (x : Result α) (ts : List Token) :
    ∃ moves, (taking x : TokenCursor α) ts = ⟨x.mapError stopOf, ts.drop 1, moves⟩ ∧
      Travels ts moves (ts.drop 1) := by
  cases ts with
  | nil => exact ⟨[], rfl, .stay []⟩
  | cons t ts => exact ⟨[.on t], rfl, .on t (.stay ts)⟩

/-- A token with a text is passed. -/
theorem lands_taking {α : Type} (a : α) (ts : List Token) :
    Lands (taking (.ok a)) ts a (ts.drop 1) :=
  taking_apply (.ok a) ts

/-- A token without one fails; its escapes are not all closed if it is an endless one. -/
theorem fails_taking {α : Type} {eof : Token} {e : ParseError} {ts : List Token}
    (he : e = .escape .endless → ¬ClosesEscapes (ts.headD eof).text.toList) :
    Fails eof (taking (.error e) : TokenCursor α) ts e := by
  refine ⟨⟨ts.drop 1, taking_apply (.error e) ts⟩, fun heq => ⟨ts.headD eof, ?_, he heq⟩⟩
  cases ts with
  | nil => exact List.mem_cons_self
  | cons t ts => exact List.mem_cons_of_mem _ List.mem_cons_self

/-- The text of a token and what depends on it follow a parser that reads both. -/
theorem follows_taking {α β σ : Type} [Reading σ β] {eof : Token} {x : Result α}
    {f : α → TokenCursor β} {g : α → Result σ} {ts : List Token}
    (hx : x = .error (.escape .endless) → ¬ClosesEscapes (ts.headD eof).text.toList)
    (hf : ∀ a, Follows eof (f a) (ts.drop 1) (g a)) :
    Follows eof (taking x >>= f) ts (x >>= g) := by
  cases x with
  | ok a => exact (lands_taking a ts).follows (hf a)
  | error e => exact (fails_taking fun heq => hx (by rw [heq])).bind

/-- The value of a text alone. -/
theorem follows_taking_ok {α ρ : Type} [Reading ρ α] {eof : Token} {x : Result α} {g : α → ρ}
    {ts : List Token}
    (hx : x = .error (.escape .endless) → ¬ClosesEscapes (ts.headD eof).text.toList)
    (hvalue : ∀ a, Reading.value (g a) = a) (hrest : ∀ a, Reading.rest (g a) = ts.drop 1) :
    Follows eof (taking x) ts (x >>= fun a => .ok (g a)) := by
  cases x with
  | ok a =>
    change Lands (taking (.ok a)) ts (Reading.value (g a)) (Reading.rest (g a))
    rw [hvalue, hrest]
    exact lands_taking a ts
  | error e => exact fails_taking fun heq => hx (by rw [heq])

/-! ### Tries -/

/-- The cursor does what a parser says that may give nothing; where it is then does not matter. -/
def Tries {ρ α : Type} [Reading ρ α] (eof : Token) (m : TokenCursor (Option α)) (ts : List Token) :
    Result (Option ρ) → Prop
  | .ok (some p) => Lands m ts (some (Reading.value p)) (Reading.rest p)
  | .ok none => ∃ us, Lands m ts none us
  | .error e => Fails eof m ts e

section Tries

variable {α ρ : Type} [Reading ρ α] {eof : Token} {m : TokenCursor (Option α)}
  {scan : TokenCursor α} {occasion : Occasion} {ts us vs : List Token} {a : α} {e : ParseError}

/-- A guard lets a try go on that got ahead. -/
theorem Tries.guarded {x : Result (Option ρ)} (h : Tries eof m us x)
    (hlt : us.length < ts.length) : Tries eof (m.guarded ts) us x := by
  match x with
  | .ok (some p) => exact Lands.guarded h hlt
  | .ok none =>
    obtain ⟨vs, h⟩ := h
    exact ⟨vs, h.guarded hlt⟩
  | .error e => exact Fails.guarded h hlt

/-- A loop tries what its body tries. -/
theorem tries_watched {γ : Type}
    {body : (γ → TokenCursor (Option α)) → γ → TokenCursor (Option α)} {c : γ}
    {x : Result (Option ρ)}
    (h : Tries eof (body (fun c => Cursor.guarded ts (watched body c)) c) ts x) :
    Tries eof (watched body c) ts x := by
  match x with
  | .ok (some p) => exact lands_watched h
  | .ok none =>
    obtain ⟨vs, h⟩ := h
    exact ⟨vs, lands_watched h⟩
  | .error e => exact fails_watched h

/-- A try that succeeds leaves nothing to do again. -/
theorem lands_attempt_some (h : Lands m ts (some a) us) :
    Lands (attempt occasion m scan) ts a us := by
  obtain ⟨moves, hm, htravels⟩ := h
  exact ⟨moves, by rw [attempt, hm], htravels⟩

/-- A try that gives nothing leads back to its start and straight on from there. -/
theorem lands_attempt_none (hstart : occasion = .list → (headKind ts).opens)
    (h : Lands m ts none us) (hscan : Passes scan ts a vs) :
    Lands (attempt occasion m scan) ts a vs := by
  obtain ⟨tried, hm, htried⟩ := h
  obtain ⟨passed, rfl, hscan⟩ := hscan
  refine ⟨_, ?_, .again occasion hstart htried (.stay vs)⟩
  rw [attempt, hm]
  simp only [hscan, Run.behind]
  simp

/-- A try that fails is one that fails for good. -/
theorem fails_attempt (h : Fails eof m ts e) : Fails eof (attempt occasion m scan) ts e := by
  obtain ⟨⟨vs, moves, hm, htravels⟩, hendless⟩ := h
  exact ⟨⟨vs, moves, by rw [attempt, hm], htravels⟩, hendless⟩

/-! What `Follows` says of one step after another holds of tries, too. -/

section Steps

variable {β σ : Type} [Reading σ β] {n : TokenCursor β} {x : Result (Option ρ)}

/-- A branch tries what its first part does if its condition holds. -/
theorem tries_then {m' : TokenCursor (Option α)} {c : Prop} [Decidable c] (hc : c)
    (h : Tries eof m ts x) : Tries eof (if c then m else m') ts x := by
  rwa [if_pos hc]

/-- A branch tries what its second part does if its condition fails. -/
theorem tries_else {m' : TokenCursor (Option α)} {c : Prop} [Decidable c] (hc : ¬c)
    (h : Tries eof m' ts x) : Tries eof (if c then m else m') ts x := by
  rwa [if_neg hc]

/-- Behind a cursor that lands, the rest may try a parser. -/
theorem Lands.tries {b : β} {f : β → TokenCursor (Option α)} (h : Lands n ts b us)
    (hf : Tries eof (f b) us x) : Tries eof (n >>= f) ts x := by
  match x with
  | .ok (some p) => exact h.bind_lands hf
  | .ok none =>
    obtain ⟨vs, hf⟩ := hf
    exact ⟨vs, h.bind_lands hf⟩
  | .error e => exact h.bind_fails hf

/-- Looking at the tokens decides what is tried. -/
theorem tries_look {f : List Token → TokenCursor (Option α)} (h : Tries eof (f ts) ts x) :
    Tries eof (look >>= f) ts x :=
  Lands.tries (lands_of_passes (passes_pure ts ts)) h

/-- Behind a cursor that follows a parser, the rest may try another one. -/
theorem Follows.tries {y : Result σ} {f : β → TokenCursor (Option α)} {g : σ → Result (Option ρ)}
    (h : Follows eof n ts y)
    (hf : ∀ p, y = .ok p → Tries eof (f (Reading.value p)) (Reading.rest p) (g p)) :
    Tries eof (n >>= f) ts (y >>= g) := by
  cases y with
  | ok p => exact Lands.tries h (hf p rfl)
  | error e => exact Fails.bind h

end Steps

end Tries

/-! ### Expected tokens -/

namespace Walk

/-- Past the next token, which has to be of the given kind. -/
def expects (eof : Token) (kind : Kind) (place : Place) : TokenCursor Token := do
  match ← look with
  | [] => raise (.expected kind eof place)
  | t :: _ =>
    if t.kind = kind then do
      advance
      pure t
    else raise (.expected kind t place)

/-- A token that is expected is passed, and any other one is an error. -/
theorem follows_expects (eof : Token) (kind : Kind) (place : Place) (ts : List Token) :
    Follows eof (expects eof kind place) ts (expect eof kind place ts) := by
  refine follows_look ?_
  cases ts with
  | nil =>
    rw [expect]
    exact follows_raise (by simp) []
  | cons t ts =>
    rw [expect]
    by_cases hkind : t.kind = kind
    · rw [if_pos hkind]
      refine follows_then hkind (follows_of_passes ?_)
      exact passes_advance_bind (passes_pure t ts)
    · rw [if_neg hkind]
      refine follows_else hkind ?_
      exact follows_raise (by simp) _

/-! ### Lists with commas -/

/-- Over what follows a member of a list: a comma and the other members, or the closing bracket. -/
def separated {α : Type} (eof : Token) (closer : Kind) (others : TokenCursor α) (add : α → α)
    (last : α) (missing : Token → ParseError) : TokenCursor α := do
  match ← look with
  | [] => raise (missing eof)
  | t :: _ =>
    if t.kind = .comma then do
      advance
      let more ← others
      pure (add more)
    else if t.kind = closer then do
      advance
      pure last
    else raise (missing t)

/-- What stands behind a member of a list follows the parser of lists, if the other members follow
theirs. -/
theorem follows_separated {α : Type} {eof : Token} {closer : Kind} {m : TokenCursor α}
    {others : (ts : List Token) → Result (Parsed α ts.length)} {add : α → α} {last : α}
    {missing : Token → ParseError} {ts : List Token}
    (hmissing : ∀ t, missing t ≠ .escape .endless)
    (hothers : ∀ u us, ts = u :: us → Follows eof m us (others us)) :
    Follows eof (separated eof closer m add last missing) ts
      (parseSeparated eof closer others add last missing ts) := by
  refine follows_look ?_
  cases ts with
  | nil =>
    rw [parseSeparated]
    exact follows_raise (hmissing eof) []
  | cons t ts =>
    rw [parseSeparated]
    by_cases hcomma : t.kind = .comma
    · rw [if_pos hcomma]
      refine follows_then hcomma (follows_after (passes_advance t ts) ?_)
      exact (hothers t ts rfl).bind fun more _ => follows_pure rfl rfl
    · rw [if_neg hcomma]
      refine follows_else hcomma ?_
      by_cases hclose : t.kind = closer
      · refine follows_then hclose ?_
        rw [if_pos hclose]
        exact follows_after (passes_advance t ts) (follows_pure rfl rfl)
      · refine follows_else hclose ?_
        rw [if_neg hclose]
        exact follows_raise (hmissing t) _

end Walk

end Rust
end Ferrotype

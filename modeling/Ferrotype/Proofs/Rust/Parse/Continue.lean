/-
# Tokens that continue others

A parser decides by the kinds and the texts of the tokens that it has passed or comes to next. So it
does the same on all tokens that start with the same pieces, as long as it does not ask what stands
behind them. `Continues ws ts us` says that `us` has the pieces of `ts` and then the tokens `ws`.

If something follows, the end of `ts` counts. `Sealed` tokens end as an item does, and the groups
among them are closed: neither a look at the next token nor a search for a closing bracket goes
beyond them. `Repeats` says of a result that it is the one already found, with `ws` behind what is
left. Here are the lemmas on the tokens that are passed over.
-/

import Ferrotype.Proofs.Rust.Canonical.Reads
import Ferrotype.Proofs.Rust.Parse.Branch
import Ferrotype.Proofs.Rust.Walk.Skip

namespace Ferrotype
namespace Rust

/-! ## Groups that are closed -/

namespace Kind

/-- The bracket that closes the group which a bracket opens. -/
def closer? : Kind → Option Kind
  | lparen => some rparen
  | lbrace => some rbrace
  | lbracket => some rbracket
  | _ => none

/-- Whether a token of the kind can be the last one of an item. -/
def endsItem (kind : Kind) : Bool := kind == semicolon || kind == rbrace

/-- Every bracket that opens a group has one that closes it. -/
theorem closer?_of_opens {kind : Kind} (h : kind.opens) :
    ∃ closer, kind.closer? = some closer ∧ closer ≠ eof := by
  unfold opens at h
  split at h
  · exact ⟨rparen, rfl, Kind.noConfusion⟩
  · exact ⟨rbrace, rfl, Kind.noConfusion⟩
  · exact ⟨rbracket, rfl, Kind.noConfusion⟩
  · cases h

end Kind

/-- The tokens from the first bracket on that closes more than was opened; `depth` groups are
open. -/
def fromCloser (depth : Nat) (ts : List Token) : List Token := (rawSpan (fun _ => false) depth ts).2

/-- A group is left behind the bracket that closes it. -/
theorem closeGroup_eq_drop_fromCloser (depth : Nat) (ts : List Token) :
    closeGroup depth ts = (fromCloser depth ts).drop 1 := by
  unfold fromCloser
  fun_induction closeGroup depth ts with
  | case1 => rfl
  | case2 depth t ts hopens ih =>
    have hcloses : t.kind.closes = false := by
      revert hopens
      cases t.kind <;> simp [Kind.opens, Kind.closes]
    simp [rawSpan, hopens, hcloses, ih]
  | case3 t ts hopens hcloses => simp [rawSpan, hcloses]
  | case4 t ts hopens hcloses depth ih => simp [rawSpan, hopens, hcloses, ih]
  | case5 depth t ts hopens hcloses ih => simp [rawSpan, hopens, hcloses, ih]

/-- Tokens that end as an item does and close every group that is opened among them, by the bracket
that belongs to it. -/
structure Sealed (ts : List Token) : Prop where
  closed : ∀ {t us closer}, t :: us <:+ ts → t.kind.closer? = some closer →
    headKind (fromCloser 0 us) = closer
  ends : ∀ {t}, [t] <:+ ts → t.kind.endsItem

/-- The last tokens of sealed ones are sealed. -/
theorem Sealed.mono {ts us : List Token} (h : Sealed ts) (hsuffix : us <:+ ts) : Sealed us :=
  ⟨fun ht => h.closed (ht.trans hsuffix), fun ht => h.ends (ht.trans hsuffix)⟩

/-- There is a token where one of a kind comes next. -/
theorem ne_nil_of_headKind {ts : List Token} {kind : Kind} (h : headKind ts = kind)
    (hkind : kind ≠ .eof) : ts ≠ [] := by
  rintro rfl
  exact hkind h.symm

/-! ## Tokens with more behind them -/

/-- Whether the tokens `us` have the pieces of `ts` and then the tokens `ws`. If there are any of
these, `ts` has to be sealed. -/
structure Continues (ws ts us : List Token) : Prop where
  split : ∃ vs, piecesOf vs = piecesOf ts ∧ us = vs ++ ws
  closed : ws = [] ∨ Sealed ts

/-- Whether the token that comes next after `ts` is known: one of `ts`, or the end. -/
def Settled (ws ts : List Token) : Prop := ts ≠ [] ∨ ws = []

variable {ws ts us : List Token}

/-- Where a token is left, the next one is known. -/
theorem settled_cons (t : Token) (ts : List Token) : Settled ws (t :: ts) :=
  .inl (List.cons_ne_nil _ _)

/-- The next token is known if one further behind is. -/
theorem Settled.of_suffix {rest : List Token} (h : Settled ws rest) (hsuffix : rest <:+ ts) :
    Settled ws ts := by
  refine h.imp_left fun hrest hts => hrest ?_
  rw [hts] at hsuffix
  exact List.suffix_nil.1 hsuffix

namespace Continues

/-- Tokens with the same pieces go on with nothing. -/
theorem of_pieces {vs : List Token} (h : piecesOf vs = piecesOf ts) : Continues [] ts vs :=
  ⟨⟨vs, h, (List.append_nil vs).symm⟩, .inl rfl⟩

/-- Sealed tokens may go on with any others. -/
theorem of_sealed (h : Sealed ts) (ws : List Token) : Continues ws ts (ts ++ ws) :=
  ⟨⟨ts, rfl, rfl⟩, .inr h⟩

/-- The first token is one with the same kind and text. -/
theorem cons {t : Token} (h : Continues ws (t :: ts) us) :
    ∃ q us', us = ⟨t.kind, t.text, q⟩ :: us' ∧ Continues ws ts us' := by
  obtain ⟨⟨vs, hvs, rfl⟩, hclosed⟩ := h
  obtain ⟨⟨kind, text, q⟩, vs, rfl, rfl, rfl, hrest⟩ := exists_cons_of_piecesOf hvs
  exact ⟨q, vs ++ ws, rfl, ⟨vs, hrest, rfl⟩, hclosed.imp_right (·.mono (List.suffix_cons _ _))⟩

/-- Behind the last token stand the others. -/
theorem eq_of_nil (h : Continues ws [] us) : us = ws := by
  obtain ⟨⟨vs, hvs, rfl⟩, -⟩ := h
  rw [List.map_eq_nil_iff.1 hvs, List.nil_append]

/-- At an end that is known nothing follows. -/
theorem eq_nil (h : Continues ws [] us) (hs : Settled ws []) : us = [] ∧ ws = [] := by
  rcases hs with hs | rfl
  · exact absurd rfl hs
  · exact ⟨h.eq_of_nil, rfl⟩

/-- The next kind is the same. -/
theorem headKind (h : Continues ws ts us) (hs : Settled ws ts) : headKind us = headKind ts := by
  cases ts with
  | nil => rw [(h.eq_nil hs).1]
  | cons t ts =>
    obtain ⟨q, us, rfl, -⟩ := h.cons
    rfl

/-- Behind a token that ends no item the next one is known. -/
theorem settled_tail {t : Token} (h : Continues ws (t :: ts) us) (ht : t.kind.endsItem = false) :
    Settled ws ts := by
  rcases h.closed with hws | hsealed
  · exact .inr hws
  · refine .inl ?_
    rintro rfl
    rw [hsealed.ends (List.suffix_refl _)] at ht
    cases ht

/-- The tokens that follow are counted in. -/
theorem length (h : Continues ws ts us) : us.length = ts.length + ws.length := by
  obtain ⟨⟨vs, hvs, rfl⟩, -⟩ := h
  have hlength := congrArg List.length hvs
  simp only [piecesOf, List.length_map] at hlength
  rw [List.length_append, hlength]

/-- The texts of the tokens up to some place among the first ones. -/
theorem texts_take (h : Continues ws ts us) {n : Nat} (hn : n ≤ ts.length) :
    (us.take n).map (·.text) = (ts.take n).map (·.text) := by
  obtain ⟨⟨vs, hvs, rfl⟩, -⟩ := h
  have hlength := congrArg List.length hvs
  simp only [piecesOf, List.length_map] at hlength
  have htexts := congrArg (List.map Piece.text) hvs
  simp only [piecesOf, List.map_map] at htexts
  rw [List.take_append_of_le_length (hlength ▸ hn), List.map_take, List.map_take]
  exact congrArg (List.take n) htexts

/-- Behind the next token they go on as before. -/
theorem drop_one (h : Continues ws ts us) (hs : Settled ws ts) :
    Continues ws (ts.drop 1) (us.drop 1) := by
  cases ts with
  | nil =>
    obtain ⟨rfl, rfl⟩ := h.eq_nil hs
    exact h
  | cons t ts =>
    obtain ⟨q, us, rfl, htail⟩ := h.cons
    exact htail

/-! ## Tokens that are passed over -/

/-- So they do behind a token that is dropped if it is there. -/
theorem dropIf (h : Continues ws ts us) (hs : Settled ws ts) (kind : Kind) :
    Continues ws (dropIf kind ts) (dropIf kind us) := by
  cases ts with
  | nil =>
    obtain ⟨rfl, rfl⟩ := h.eq_nil hs
    exact h
  | cons t ts =>
    obtain ⟨q, us, rfl, htail⟩ := h.cons
    simp only [Rust.dropIf]
    split
    · exact htail
    · exact h

/-- A span up to a stop has the same texts, and what follows goes on as before. The induction is on
the tokens. -/
theorem rawSpan {stops : Kind → Bool} {depth : Nat} (h : Continues ws ts us)
    (hs : Settled ws (rawSpan stops depth ts).2) :
    (rawSpan stops depth us).1.map (·.text) = (rawSpan stops depth ts).1.map (·.text) ∧
      Continues ws (rawSpan stops depth ts).2 (rawSpan stops depth us).2 := by
  induction ts generalizing us depth with
  | nil =>
    obtain ⟨rfl, rfl⟩ := h.eq_nil hs
    exact ⟨rfl, h⟩
  | cons t ts ih =>
    obtain ⟨q, us, rfl, htail⟩ := h.cons
    rw [Rust.rawSpan] at hs ⊢
    rw [Rust.rawSpan]
    split
    · exact ⟨rfl, h⟩
    · rename_i hstop
      rw [if_neg hstop] at hs
      obtain ⟨htexts, hrest⟩ := ih htail hs
      exact ⟨congrArg (t.text :: ·) htexts, hrest⟩

/-- Its text is the same. -/
theorem textOf_rawSpan {stops : Kind → Bool} {depth : Nat} (h : Continues ws ts us)
    (hs : Settled ws (Rust.rawSpan stops depth ts).2) :
    textOf (Rust.rawSpan stops depth us).1 = textOf (Rust.rawSpan stops depth ts).1 :=
  congrArg joinTokens (h.rawSpan hs).1

/-- The same of the span of a type that is kept as text. -/
theorem verbatimSpan {depth : Nat} (h : Continues ws ts us)
    (hs : Settled ws (verbatimSpan depth ts).2) :
    (verbatimSpan depth us).1.map (·.text) = (verbatimSpan depth ts).1.map (·.text) ∧
      Continues ws (verbatimSpan depth ts).2 (verbatimSpan depth us).2 := by
  induction ts generalizing us depth with
  | nil =>
    obtain ⟨rfl, rfl⟩ := h.eq_nil hs
    exact ⟨rfl, h⟩
  | cons t ts ih =>
    obtain ⟨q, us, rfl, htail⟩ := h.cons
    rw [Rust.verbatimSpan] at hs ⊢
    rw [Rust.verbatimSpan]
    split
    · exact ⟨rfl, h⟩
    · rename_i hends
      rw [if_neg hends] at hs
      obtain ⟨htexts, hrest⟩ := ih htail hs
      exact ⟨congrArg (t.text :: ·) htexts, hrest⟩

/-- They go on behind the end of a group. -/
theorem closeGroup {depth : Nat} (h : Continues ws ts us) (hs : Settled ws (fromCloser depth ts)) :
    Continues ws (closeGroup depth ts) (closeGroup depth us) := by
  rw [closeGroup_eq_drop_fromCloser, closeGroup_eq_drop_fromCloser]
  exact (h.rawSpan hs).2.drop_one hs

/-- A group is closed among the first tokens. -/
theorem settled_fromCloser {t : Token} (h : Continues ws (t :: ts) us) (hopens : t.kind.opens) :
    Settled ws (fromCloser 0 ts) := by
  rcases h.closed with hws | hsealed
  · exact .inr hws
  · obtain ⟨closer, hcloser, hne⟩ := Kind.closer?_of_opens hopens
    exact .inl (ne_nil_of_headKind (hsealed.closed (List.suffix_refl _) hcloser) hne)

/-- They go on behind an empty pair of parentheses. -/
theorem dropUnit (h : Continues ws ts us) (hs : Settled ws ts) :
    Continues ws (dropUnit ts) (dropUnit us) := by
  cases ts with
  | nil =>
    obtain ⟨rfl, rfl⟩ := h.eq_nil hs
    exact h
  | cons t ts =>
    obtain ⟨q, us, rfl, htail⟩ := h.cons
    simp only [Rust.dropUnit]
    split
    · rename_i hopens
      exact htail.closeGroup (h.settled_fromCloser hopens)
    · exact htail

/-- A path has the same segments. The induction is on them. -/
theorem segments (h : Continues ws ts us) (hs : Settled ws (segments ts).2) :
    (segments us).1 = (segments ts).1 ∧ Continues ws (segments ts).2 (segments us).2 := by
  fun_induction Rust.segments ts generalizing us with
  | case1 =>
    obtain ⟨rfl, rfl⟩ := h.eq_nil hs
    exact ⟨rfl, h⟩
  | case2 t hsegment =>
    obtain ⟨q, us, rfl, htail⟩ := h.cons
    obtain ⟨rfl, rfl⟩ := htail.eq_nil hs
    simp [Rust.segments, hsegment, htail]
  | case3 t hsegment =>
    obtain ⟨q, us, rfl, htail⟩ := h.cons
    cases us <;> simp [Rust.segments, hsegment, h]
  | case4 t s ts hsegment hcolon ih =>
    obtain ⟨q, us, rfl, htail⟩ := h.cons
    obtain ⟨r, us, rfl, hrest⟩ := htail.cons
    have hsettled : Settled ws ts := htail.settled_tail (by rw [hcolon.1]; rfl)
    have hhead := hrest.headKind hsettled
    obtain ⟨hparts, hrest⟩ := ih hrest hs
    rw [← hhead] at hcolon
    simp [Rust.segments, hsegment, hcolon, hparts, hrest]
  | case5 t s ts hsegment hcolon =>
    obtain ⟨q, us, rfl, htail⟩ := h.cons
    obtain ⟨r, us, rfl, hrest⟩ := htail.cons
    have hcolon' : ¬ (s.kind = .colonColon ∧ Rust.headKind us ≠ .lt) := fun hkind => by
      have hsettled : Settled ws ts := htail.settled_tail (by rw [hkind.1]; rfl)
      rw [hrest.headKind hsettled] at hkind
      exact hcolon hkind
    rw [Rust.segments, if_pos hsegment, if_neg hcolon']
    exact ⟨rfl, htail⟩
  | case6 t s ts hsegment =>
    obtain ⟨q, us, rfl, htail⟩ := h.cons
    obtain ⟨r, us, rfl, -⟩ := htail.cons
    rw [Rust.segments, if_neg hsegment]
    exact ⟨rfl, h⟩

/-- The same of a path that may start with two colons. -/
theorem path (h : Continues ws ts us) (hs : Settled ws (path ts).2) :
    (path us).1 = (path ts).1 ∧ Continues ws (path ts).2 (path us).2 :=
  (h.dropIf (hs.of_suffix (Walk.passes_skipPath ts).suffix) .colonColon).segments hs

/-- They go on behind the bounds of a parameter. -/
theorem dropBounds {depth : Nat} (h : Continues ws ts us) (hs : Settled ws (dropBounds depth ts)) :
    Continues ws (dropBounds depth ts) (dropBounds depth us) := by
  fun_induction Rust.dropBounds depth ts generalizing us with
  | case1 depth =>
    obtain ⟨rfl, rfl⟩ := h.eq_nil hs
    rwa [Rust.dropBounds]
  | case2 depth t ts hends =>
    obtain ⟨q, us, rfl, -⟩ := h.cons
    rwa [Rust.dropBounds, if_pos hends]
  | case3 depth t ts hends ih =>
    have hunit := ih (h.dropUnit (settled_cons t ts)) hs
    obtain ⟨q, us, rfl, -⟩ := h.cons
    rwa [Rust.dropBounds, if_neg hends]

/-- They go on behind the colons in front of arguments. -/
theorem dropTurbofish (h : Continues ws ts us) (hs : Settled ws ts) :
    Continues ws (dropTurbofish ts) (dropTurbofish us) := by
  fun_cases Rust.dropTurbofish ts with
  | case1 s t ts hkind =>
    obtain ⟨q, us, rfl, htail⟩ := h.cons
    obtain ⟨r, us, rfl, -⟩ := htail.cons
    rwa [Rust.dropTurbofish, if_pos hkind]
  | case2 s t ts hkind =>
    obtain ⟨q, us, rfl, htail⟩ := h.cons
    obtain ⟨r, us, rfl, -⟩ := htail.cons
    rwa [Rust.dropTurbofish, if_neg hkind]
  | case3 ts hshort =>
    cases ts with
    | nil =>
      obtain ⟨rfl, rfl⟩ := h.eq_nil hs
      exact h
    | cons t ts =>
      cases ts with
      | cons s ts => exact absurd rfl (hshort t s ts)
      | nil =>
        obtain ⟨q, us, rfl, htail⟩ := h.cons
        cases us with
        | nil => exact h
        | cons u us =>
          have hkind : ¬ (t.kind = .colonColon ∧ u.kind = .lt) := fun hkind => by
            obtain ⟨hus, -⟩ := htail.eq_nil (h.settled_tail (by rw [hkind.1]; rfl))
            cases hus
          rwa [Rust.dropTurbofish, if_neg hkind]

/-- They go on behind the length of an array. -/
theorem dropLength (h : Continues ws ts us) (hs : Settled ws (dropLength ts)) :
    Continues ws (dropLength ts) (dropLength us) := by
  cases ts with
  | nil =>
    obtain ⟨rfl, rfl⟩ := h.eq_nil hs
    exact h
  | cons t ts =>
    obtain ⟨q, us, rfl, htail⟩ := h.cons
    simp only [Rust.dropLength] at hs ⊢
    split
    · rename_i hkind
      rw [if_pos hkind] at hs
      exact (htail.rawSpan hs).2
    · exact h

/-- They go on behind what makes a type a reference. -/
theorem dropReference (h : Continues ws ts us) (hs : Settled ws (dropReference ts)) :
    Continues ws (dropReference ts) (dropReference us) :=
  (h.dropIf (hs.of_suffix (Walk.passes_skipReference ts).suffix) .lifetime).dropIf
    (hs.of_suffix (Walk.passes_skipIf _).suffix) .mutWord

/-- They go on at the bracket that closes an attribute. -/
theorem dropToBracket (h : Continues ws ts us) (hs : Settled ws (dropToBracket ts)) :
    Continues ws (dropToBracket ts) (dropToBracket us) := by
  fun_induction Rust.dropToBracket ts generalizing us with
  | case1 =>
    obtain ⟨rfl, rfl⟩ := h.eq_nil hs
    rwa [Rust.dropToBracket]
  | case2 t ts hkind =>
    obtain ⟨q, us, rfl, -⟩ := h.cons
    rwa [Rust.dropToBracket, if_pos hkind]
  | case3 t ts hkind ih =>
    have hunit := ih (h.dropUnit (settled_cons t ts)) hs
    obtain ⟨q, us, rfl, -⟩ := h.cons
    rwa [Rust.dropToBracket, if_neg hkind]

/-- They go on behind a parameter, whatever starts it. -/
theorem dropParameter {t : Token} (h : Continues ws (t :: ts) us)
    (hs : Settled ws (dropParameter t ts)) :
    ∃ q us', us = ⟨t.kind, t.text, q⟩ :: us' ∧
      Continues ws (dropParameter t ts) (dropParameter ⟨t.kind, t.text, q⟩ us') := by
  obtain ⟨q, us, rfl, htail⟩ := h.cons
  refine ⟨q, us, rfl, ?_⟩
  unfold Rust.dropParameter at hs ⊢
  have hbounds := hs.of_suffix (Walk.passes_skipIf _).suffix
  refine dropIf ?_ hbounds .comma
  simp only
  split
  · rename_i hkind
    rw [if_pos hkind] at hbounds
    exact htail.dropBounds hbounds
  · rename_i hkind
    rw [if_neg hkind] at hbounds
    exact h.dropBounds hbounds

/-- They go on behind the predicates of a clause. -/
theorem dropPredicates (h : Continues ws ts us) (hs : Settled ws (dropPredicates ts)) :
    Continues ws (dropPredicates ts) (dropPredicates us) := by
  fun_induction Rust.dropPredicates ts generalizing us with
  | case1 =>
    obtain ⟨rfl, rfl⟩ := h.eq_nil hs
    rwa [Rust.dropPredicates]
  | case2 t ts hkind =>
    obtain ⟨q, us, rfl, -⟩ := h.cons
    rwa [Rust.dropPredicates, if_pos hkind]
  | case3 t ts hkind ih =>
    have hunit := ih (h.dropUnit (settled_cons t ts)) hs
    obtain ⟨q, us, rfl, -⟩ := h.cons
    rwa [Rust.dropPredicates, if_neg hkind]

/-- They go on behind a clause. -/
theorem dropWhere (h : Continues ws ts us) (hs : Settled ws (dropWhere ts)) :
    Continues ws (dropWhere ts) (dropWhere us) := by
  cases ts with
  | nil =>
    obtain ⟨rfl, rfl⟩ := h.eq_nil hs
    exact h
  | cons t ts =>
    obtain ⟨q, us, rfl, -⟩ := h.cons
    simp only [Rust.dropWhere] at hs ⊢
    split
    · rename_i hkind
      rw [if_pos hkind] at hs
      exact h.dropPredicates hs
    · exact h

/-- They go on behind a visibility. -/
theorem dropVisibility (h : Continues ws ts us) (hs : Settled ws ts) :
    Continues ws (dropVisibility ts) (dropVisibility us) := by
  cases ts with
  | nil =>
    obtain ⟨rfl, rfl⟩ := h.eq_nil hs
    exact h
  | cons t ts =>
    obtain ⟨q, us, rfl, htail⟩ := h.cons
    simp only [Rust.dropVisibility]
    by_cases hpub : t.kind = .pub
    · have hsettled : Settled ws ts := h.settled_tail (by rw [hpub]; rfl)
      rw [if_pos hpub, if_pos hpub, htail.headKind hsettled]
      split
      · exact htail.dropUnit hsettled
      · exact htail
    · rwa [if_neg hpub, if_neg hpub]

/-- A discriminant has the same text. -/
theorem discriminant (h : Continues ws ts us) (hs : Settled ws (discriminant ts).2) :
    (discriminant us).1 = (discriminant ts).1 ∧
      Continues ws (discriminant ts).2 (discriminant us).2 := by
  cases ts with
  | nil =>
    obtain ⟨rfl, rfl⟩ := h.eq_nil hs
    exact ⟨rfl, h⟩
  | cons t ts =>
    obtain ⟨q, us, rfl, htail⟩ := h.cons
    simp only [Rust.discriminant] at hs ⊢
    split
    · rename_i hkind
      rw [if_pos hkind] at hs
      exact ⟨congrArg some (htail.textOf_rawSpan hs), (htail.rawSpan hs).2⟩
    · exact ⟨rfl, h⟩

end Continues

/-! ## Results -/

/-- Whether a result is one already found, with more tokens behind what is left. -/
def Repeats {α : Type} {n m : Nat} (ws : List Token) (p : Parsed α n)
    (result : Result (Parsed α m)) : Prop :=
  ∃ q, result = .ok q ∧ q.value = p.value ∧ Continues ws p.rest q.rest

section Results

variable {α β : Type} {n m : Nat}

/-- A result is repeated by one with the same value and tokens that go on. -/
theorem repeats_ok {p : Parsed α n} {q : Parsed α m} (hvalue : q.value = p.value)
    (hrest : Continues ws p.rest q.rest) : Repeats ws p (.ok q) :=
  ⟨q, rfl, hvalue, hrest⟩

/-- A step is repeated if it succeeds and what follows is repeated. -/
theorem repeats_bind {p : Parsed α n} {x : Result β} {f : β → Result (Parsed α m)} {b : β}
    (hx : x = .ok b) (h : Repeats ws p (f b)) : Repeats ws p (x >>= f) := by
  rw [hx]
  exact h

/-- What is read again leaves the token that was left. -/
theorem Repeats.exists_cons {p : Parsed α n} {result : Result (Parsed α m)}
    (h : Repeats ws p result) {t : Token} (hrest : p.rest = t :: ts) :
    ∃ q us hshorter, result = .ok ⟨p.value, ⟨t.kind, t.text, q⟩ :: us, hshorter⟩ ∧
      Continues ws ts us := by
  obtain ⟨⟨value, rest, hshorter⟩, hresult, hvalue, hleft⟩ := h
  rw [hrest] at hleft
  obtain ⟨q, us, hus, htail⟩ := hleft.cons
  obtain rfl : rest = ⟨t.kind, t.text, q⟩ :: us := hus
  obtain rfl : value = p.value := hvalue
  exact ⟨q, us, hshorter, hresult, htail⟩

/-- What follows a member is read again if the other members are. -/
theorem repeats_parseSeparated {eof eof' : Token} {closer : Kind}
    {others others' : (ts : List Token) → Result (Parsed α ts.length)} {add : α → α} {last : α}
    {missing missing' : Token → ParseError} {p : Parsed α ts.length} (h : Continues ws ts us)
    (hp : parseSeparated eof closer others add last missing ts = .ok p)
    (hothers : ∀ u ts', ts = u :: ts' → ∀ us p, Continues ws ts' us → others ts' = .ok p →
      Repeats ws p (others' us)) :
    Repeats ws p (parseSeparated eof' closer others' add last missing' us) := by
  cases ts with
  | nil => cases hp
  | cons t ts =>
    obtain ⟨q, us, rfl, htail⟩ := h.cons
    rw [parseSeparated] at hp ⊢
    split at hp
    · rename_i hcomma
      obtain ⟨more, hmore, hp⟩ := exists_of_bind_ok hp
      cases hp
      obtain ⟨more', hmore', hvalue, hrest⟩ := hothers t ts rfl us more htail hmore
      rw [if_pos hcomma]
      exact repeats_bind hmore' (repeats_ok (congrArg add hvalue) hrest)
    · rename_i hcomma
      rw [if_neg hcomma]
      split at hp
      · rename_i hcloser
        cases hp
        rw [if_pos hcloser]
        exact repeats_ok rfl htail
      · cases hp

/-- An expected token is found again, up to its position. -/
theorem exists_expect {eof eof' : Token} {kind : Kind} {place place' : Place}
    {p : Parsed Token ts.length} (h : Continues ws ts us) (hp : expect eof kind place ts = .ok p) :
    ∃ q, expect eof' kind place' us = .ok q ∧ q.value.text = p.value.text ∧
      Continues ws p.rest q.rest := by
  cases ts with
  | nil => cases hp
  | cons t ts =>
    obtain ⟨q, us, rfl, htail⟩ := h.cons
    rw [expect] at hp
    split at hp
    · rename_i hkind
      cases hp
      exact ⟨_, if_pos hkind, rfl, htail⟩
    · cases hp

/-- Where a token was taken there was one. -/
theorem ne_nil_of_parsed (p : Parsed α ts.length) : ts ≠ [] :=
  List.ne_nil_of_length_pos (Nat.zero_lt_of_lt p.shorter)

end Results

end Rust
end Ferrotype

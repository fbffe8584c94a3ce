/-
# Parsing is local to items

If the brackets of some tokens are properly nested and the last one ends an item, then the items in
them do not depend on what follows: all that follows is read as if it stood alone
(`parseItems_append`). No item swallows a part of the next one, whether it is read or skipped, and
none takes documentation or attributes from it.

Both conditions are needed. An open bracket is searched for its end in what follows, and attributes
at the end belong to the next item.
-/

import Ferrotype.Proofs.Rust.Parse.Continue.Item

namespace Ferrotype
namespace Rust

/-! ## Nested brackets -/

/-- Token lists whose brackets are properly nested. -/
inductive Nested : List Token → Prop
  | nil : Nested []
  | plain {t : Token} {ts : List Token} (hopens : t.kind.opens = false)
      (hcloses : t.kind.closes = false) (hts : Nested ts) : Nested (t :: ts)
  | group {t u : Token} {inner ts : List Token} (hcloser : t.kind.closer? = some u.kind)
      (hinner : Nested inner) (hts : Nested ts) : Nested (t :: (inner ++ u :: ts))

/-- What closes a group is a closing bracket. -/
theorem Kind.closes_of_closer? {kind closer : Kind} (h : kind.closer? = some closer) :
    closer.closes := by
  revert h
  cases kind <;> simp [closer?] <;> rintro rfl <;> rfl

/-- What has a closing bracket is an opening one. -/
theorem Kind.opens_of_closer? {kind closer : Kind} (h : kind.closer? = some closer) :
    kind.opens := by
  revert h
  cases kind <;> simp [closer?, opens]

/-- No bracket is both. -/
theorem Kind.opens_of_closes {kind : Kind} (h : kind.closes) : kind.opens = false := by
  revert h
  cases kind <;> simp [opens, closes]

/-- Behind an opening bracket one more group is open. -/
theorem fromCloser_open {t : Token} (hopens : t.kind.opens) (depth : Nat) (ts : List Token) :
    fromCloser depth (t :: ts) = fromCloser (depth + 1) ts :=
  rawSpan_open (by simp) hopens depth ts

/-- With no group open the first closing bracket is the one. -/
theorem fromCloser_close {t : Token} (hcloses : t.kind.closes) (ts : List Token) :
    fromCloser 0 (t :: ts) = t :: ts := by
  simp [fromCloser, rawSpan, hcloses]

/-- Behind a closing bracket one group less is open. -/
theorem fromCloser_close_succ {t : Token} (hcloses : t.kind.closes) (depth : Nat)
    (ts : List Token) : fromCloser (depth + 1) (t :: ts) = fromCloser depth ts :=
  rawSpan_close hcloses depth ts

/-- Other tokens open and close nothing. -/
theorem fromCloser_plain {t : Token} (hopens : t.kind.opens = false)
    (hcloses : t.kind.closes = false) (depth : Nat) (ts : List Token) :
    fromCloser depth (t :: ts) = fromCloser depth ts := by
  simp [fromCloser, rawSpan, hopens, hcloses]

namespace Nested

variable {ts : List Token}

/-- A search for a closing bracket passes over nested tokens. -/
theorem fromCloser_append (h : Nested ts) (depth : Nat) (ws : List Token) :
    fromCloser depth (ts ++ ws) = fromCloser depth ws := by
  induction h generalizing depth ws with
  | nil => rfl
  | plain hopens hcloses _ ih => rw [List.cons_append, fromCloser_plain hopens hcloses, ih]
  | group hcloser _ _ ihinner ih =>
    rw [List.cons_append, List.append_assoc, List.cons_append,
      fromCloser_open (Kind.opens_of_closer? hcloser), ihinner,
      fromCloser_close_succ (Kind.closes_of_closer? hcloser), ih]

/-- The bracket that belongs to an opening one is the first that a search finds. -/
theorem headKind_fromCloser (h : Nested ts) {t : Token} {us : List Token} {closer : Kind}
    (hsuffix : t :: us <:+ ts) (hcloser : t.kind.closer? = some closer) (ws : List Token) :
    headKind (fromCloser 0 (us ++ ws)) = closer := by
  induction h generalizing us ws with
  | nil => cases List.suffix_nil.1 hsuffix
  | plain hopens hcloses _ ih =>
    rcases List.suffix_cons_iff.1 hsuffix with heq | hsuffix
    · cases heq
      rw [Kind.opens_of_closer? hcloser] at hopens
      cases hopens
    · exact ih hsuffix ws
  | @group s u inner ts hgroup hinner hts ihinner ih =>
    rcases List.suffix_cons_iff.1 hsuffix with heq | hsuffix
    · obtain ⟨rfl, rfl⟩ := List.cons.inj heq
      obtain rfl := Option.some.inj (hcloser.symm.trans hgroup)
      rw [List.append_assoc, List.cons_append, hinner.fromCloser_append,
        fromCloser_close (Kind.closes_of_closer? hcloser), headKind_cons]
    · rcases List.suffix_or_suffix_of_suffix hsuffix (List.suffix_append inner (u :: ts)) with
        hbehind | ⟨front, hfront⟩
      · rcases List.suffix_cons_iff.1 hbehind with heq | hbehind
        · obtain ⟨rfl, rfl⟩ := List.cons.inj heq
          have hopens := Kind.opens_of_closer? hcloser
          rw [Kind.opens_of_closes (Kind.closes_of_closer? hgroup)] at hopens
          cases hopens
        · exact ih hbehind ws
      · obtain ⟨before, hbefore⟩ := hsuffix
        rw [← hfront, ← List.append_assoc] at hbefore
        have hinside : front <:+ inner := ⟨before, List.append_cancel_right hbefore⟩
        cases front with
        | nil =>
          obtain ⟨rfl, rfl⟩ := List.cons.inj hfront
          have hopens := Kind.opens_of_closer? hcloser
          rw [Kind.opens_of_closes (Kind.closes_of_closer? hgroup)] at hopens
          cases hopens
        | cons v front =>
          obtain ⟨rfl, rfl⟩ := List.cons.inj hfront
          change headKind (fromCloser 0 (front ++ u :: ts ++ ws)) = closer
          rw [List.append_assoc]
          exact ihinner hinside _

/-- Nested tokens are sealed if the last one ends an item. -/
theorem seals (h : Nested ts)
    (hends : ∀ t ∈ ts.getLast?, t.kind = .semicolon ∨ t.kind = .rbrace) : Sealed ts where
  closed := fun hsuffix hcloser => by
    simpa using h.headKind_fromCloser hsuffix hcloser []
  ends := by
    rintro t ⟨front, rfl⟩
    simpa [Kind.endsItem] using hends t

end Nested

/-! ## Items and what follows them -/

/-- **Parsing is local to items.** If some tokens have items, their brackets are nested and the last
one is a semicolon or a closing brace, then whatever follows fails as it does alone, with the same
error, or gives the same items behind theirs. -/
theorem parseItems_append {eof : Token} {xs : List Token} {items : List Item} (hnested : Nested xs)
    (hends : ∀ t ∈ xs.getLast?, t.kind = .semicolon ∨ t.kind = .rbrace)
    (hitems : parseItems eof xs = .ok items) (eof' : Token) (ys : List Token) :
    parseItems eof' (xs ++ ys) = (parseItems eof' ys).map (items ++ ·) :=
  parseItems_continues eof' (.of_sealed (hnested.seals hends) ys) hitems

/-- A unit struct and a function that is skipped. -/
def structThenFunction : List Token :=
  [⟨.struct, "struct", ⟨1, 1⟩⟩, ⟨.identifier, "S", ⟨1, 8⟩⟩, ⟨.semicolon, ";", ⟨1, 9⟩⟩,
    ⟨.fn, "fn", ⟨2, 1⟩⟩, ⟨.identifier, "f", ⟨2, 4⟩⟩, ⟨.lparen, "(", ⟨2, 5⟩⟩, ⟨.rparen, ")", ⟨2, 6⟩⟩,
    ⟨.lbrace, "\x7b", ⟨2, 8⟩⟩, ⟨.rbrace, "\x7d", ⟨2, 9⟩⟩]

/-- The semicolon behind a function is taken with it or skipped alone; either way the documentation
behind it stays with the struct to which it belongs. -/
theorem parseItems_structThenFunction_append :
    let docs : List Token := [⟨.semicolon, ";", ⟨2, 10⟩⟩, ⟨.doc, " Unit.", ⟨3, 1⟩⟩,
      ⟨.struct, "struct", ⟨4, 1⟩⟩, ⟨.identifier, "T", ⟨4, 8⟩⟩, ⟨.semicolon, ";", ⟨4, 9⟩⟩]
    (Nested structThenFunction ∧
      (∀ t ∈ structThenFunction.getLast?, t.kind = .semicolon ∨ t.kind = .rbrace) ∧
      parseItems (.eof ⟨2, 10⟩) structThenFunction = .ok [⟨"S", [], ⟨[], []⟩, .struct .unit []⟩]) ∧
    parseItems (.eof ⟨4, 10⟩) (structThenFunction ++ docs) =
      (parseItems (.eof ⟨4, 10⟩) docs).map (⟨"S", [], ⟨[], []⟩, .struct .unit []⟩ :: ·) := by
  intro docs
  have hnested : Nested structThenFunction :=
    .plain rfl rfl <| .plain rfl rfl <| .plain rfl rfl <| .plain rfl rfl <| .plain rfl rfl <|
      @Nested.group _ _ [] _ rfl .nil <| @Nested.group _ _ [] _ rfl .nil .nil
  have hends : ∀ t ∈ structThenFunction.getLast?, t.kind = .semicolon ∨ t.kind = .rbrace := by
    simp [structThenFunction]
  have hitems : parseItems (.eof ⟨2, 10⟩) structThenFunction =
      .ok [⟨"S", [], ⟨[], []⟩, .struct .unit []⟩] := by cbv
  exact ⟨⟨hnested, hends, hitems⟩, parseItems_append hnested hends hitems (.eof ⟨4, 10⟩) docs⟩

end Rust
end Ferrotype

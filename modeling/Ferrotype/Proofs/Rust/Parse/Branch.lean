/-
# Branches of the parsers

What a parser comes to in one of its branches, as an equation: a list in brackets, a type that
starts with a path, and the first item of some tokens. `exists_of_bind_ok` takes a result that was
read in steps apart.
-/

import Ferrotype.Rust.Parse.Item

namespace Ferrotype
namespace Rust

/-! ## Steps -/

/-- A value that is read in two steps has a value of the first one. -/
theorem exists_of_bind_ok {β γ : Type} {x : Result β} {f : β → Result γ} {r : γ}
    (h : (x >>= f) = .ok r) : ∃ b, x = .ok b ∧ f b = .ok r := by
  cases x with
  | error e => cases h
  | ok b => exact ⟨b, rfl, h⟩

/-- A result that is there was there before it was wrapped. -/
theorem ok_of_map_some {β : Type} {x : Result β} {b : β} (h : x.map some = .ok (some b)) :
    x = .ok b := by
  cases x with
  | error e => cases h
  | ok found =>
    cases h
    rfl

/-! ## Lists in brackets -/

/-- The brackets that stand around a list of expressions, and what such a list is read as. -/
inductive Encloses (opener : Kind) : Kind → (List Expr → Expr) → Prop
  | array (hopener : opener = .lbracket) : Encloses opener .rbracket .array
  | parentheses (hopener : opener = .lparen) : Encloses opener .rparen ofParenthesized

section Encloses

variable {eof t : Token} {ts : List Token} {closer : Kind} {node : List Expr → Expr}
  (h : Encloses t.kind closer node)
include h

/-- The brackets of a list open and close a group. -/
theorem Encloses.opens_closes : t.kind.opens ∧ closer.closes := by
  cases h with
  | array hkind => exact ⟨hkind ▸ rfl, rfl⟩
  | parentheses hkind => exact ⟨hkind ▸ rfl, rfl⟩

/-- A bracket opens a list; if that is none, the expression is kept as text. -/
theorem parseExpr_of_encloses :
    parseExpr eof (t :: ts) = parseList eof closer ts >>= fun
      | some elements => .ok (elements.map node).later.later
      | none => .ok (rawExpr (t :: ts)) := by
  rw [parseExpr]
  cases h with
  | array hkind =>
    simp only [hkind, literalKind?]
    rfl
  | parentheses hkind =>
    simp only [hkind, literalKind?]
    rfl

/-- What starts with a bracket is the list behind it or, if that is none, kept as text. -/
theorem exists_list_of_encloses {e : Parsed Expr ((t :: ts).length + 1)}
    (he : parseExpr eof (t :: ts) = .ok e) :
    parseList eof closer ts = .ok none ∧ e = rawExpr (t :: ts) ∨
      ∃ elements, parseList eof closer ts = .ok (some elements) ∧
        e = (elements.map node).later.later := by
  rw [parseExpr_of_encloses h] at he
  obtain ⟨elements, helements, he⟩ := exists_of_bind_ok he
  cases elements with
  | none =>
    cases he
    exact .inl ⟨helements, rfl⟩
  | some elements =>
    cases he
    exact .inr ⟨elements, helements, rfl⟩

end Encloses

/-! ## Types that start with a path -/

/-- Whether a token starts a path: it starts no other form of a type, and a segment stands there. -/
structure StartsPath (t : Token) (us : List Token) : Prop where
  reference : t.kind ≠ .ampersand
  parenthesis : t.kind ≠ .lparen
  bracket : t.kind ≠ .lbracket
  bang : t.kind ≠ .bang
  verbatim : ¬ startsVerbatim t
  parts : (path (t :: us)).1 ≠ []

section Path

variable (eof : Token) {t : Token} {us : List Token} (hstarts : StartsPath t us)
include hstarts

/-- A path has no arguments if no angle bracket follows. -/
theorem parseType_of_headKind (hrest : headKind (dropTurbofish (path (t :: us)).2) ≠ .lt) :
    ∃ r, parseType eof (t :: us) = .ok r ∧
      r.value = .classify (pathText (path (t :: us)).1) [] ∧
      r.rest = dropTurbofish (path (t :: us)).2 := by
  rw [parseType, if_neg hstarts.reference, if_neg hstarts.parenthesis, if_neg hstarts.bracket,
    if_neg hstarts.bang, dif_neg hstarts.verbatim, dif_neg hstarts.parts]
  split
  · rename_i heq
    exact ⟨_, rfl, rfl, heq.symm⟩
  · rename_i u vs heq
    rw [heq, headKind_cons] at hrest
    simp only
    rw [if_neg hrest]
    exact ⟨_, rfl, rfl, heq.symm⟩

/-- Behind an angle bracket the arguments of a path are read. -/
theorem parseType_of_lt {u : Token} {vs : List Token}
    (hrest : dropTurbofish (path (t :: us)).2 = u :: vs) (hu : u.kind = .lt) :
    ∃ hlt : (u :: vs).length < (t :: us).length,
      parseType eof (t :: us) = parseArguments eof vs >>= fun args =>
        .ok ((args.map (.classify (pathText (path (t :: us)).1))).later.later.widen hlt) := by
  have hlt : (u :: vs).length < (t :: us).length :=
    hrest ▸ Nat.lt_of_le_of_lt (length_dropTurbofish_le _) (length_path_lt hstarts.parts)
  refine ⟨hlt, ?_⟩
  rw [parseType, if_neg hstarts.reference, if_neg hstarts.parenthesis, if_neg hstarts.bracket,
    if_neg hstarts.bang, dif_neg hstarts.verbatim, dif_neg hstarts.parts]
  split
  · rename_i heq
    cases hrest.symm.trans heq
  · rename_i w ws heq
    obtain ⟨rfl, rfl⟩ := List.cons.inj (hrest.symm.trans heq)
    rw [if_pos hu]

/-- A path with arguments is read up to where these end. -/
theorem parseType_of_parseArguments {u : Token} {vs : List Token}
    {args : Parsed (List TypeExpr) vs.length} (hrest : dropTurbofish (path (t :: us)).2 = u :: vs)
    (hu : u.kind = .lt) (hargs : parseArguments eof vs = .ok args) :
    ∃ r, parseType eof (t :: us) = .ok r ∧
      r.value = .classify (pathText (path (t :: us)).1) args.value ∧ r.rest = args.rest := by
  obtain ⟨hlt, hparse⟩ := parseType_of_lt eof hstarts hrest hu
  exact ⟨_, hparse.trans (by rw [hargs]; rfl), rfl, rfl⟩

end Path

/-! ## The first item -/

/-- The items of tokens that start with a preamble. -/
theorem parseItems_of_preamble [Text.StandIn] {eof t : Token} {ts : List Token}
    {p : Parsed Preamble ((t :: ts).length + 1)}
    (hinner : ¬ (t.kind = .hash ∧ headKind ts = .bang)) (hp : preamble eof (t :: ts) = .ok p) :
    parseItems eof (t :: ts) =
      match dropVisibility p.rest with
      | [] => .ok []
      | u :: us => parseItem eof p.value u us >>= fun
        | some item => (parseItems eof item.rest).map (item.value :: ·)
        | none => parseItems eof (dropItem (u :: us)) := by
  rw [parseItems, if_neg hinner, hp]
  simp only [bind, Except.bind]
  split <;> rename_i heq
  · rw [heq]
  · rw [heq]
    rfl

end Rust
end Ferrotype

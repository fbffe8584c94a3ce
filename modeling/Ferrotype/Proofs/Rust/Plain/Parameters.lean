/-
# Type parameters and their bounds

Between angle brackets stand lifetimes, type parameters and constants. What is behind the name of
one of them, its bounds or its default, is passed over with a counter of open angle brackets, while
the groups `( [ {` are passed over as a whole. Seen as trees (`BoundTree`) these are tokens in which
angle brackets come in pairs outside of groups and commas stand only inside of brackets; a group may
hold angle brackets without a partner, as `{ N > 2 }` does, and `->` is a token of its own.

A pair of angle brackets takes the counter up and down again, so in front of whatever follows the
bounds it is where it was (`BoundTree.bounds_append`). Hence each parameter ends at its own comma,
and the names that are read are those of the type parameters (`outcome_generics_parameterList`).
-/

import Ferrotype.Proofs.Rust.Plain.Header

namespace Ferrotype
namespace Rust

/-- Bounds and defaults as trees. Whether they stand inside of angle brackets decides whether they
may hold commas outside of brackets of their own. -/
inductive BoundTree : Bool → List Token → Prop
  | nil {inside : Bool} : BoundTree inside []
  | plain {inside : Bool} {t : Token} {ts : List Token} (hopens : t.kind.opens = false)
      (hcloses : t.kind.closes = false) (hangle : t.kind ≠ .lt ∧ t.kind ≠ .gt)
      (hcomma : t.kind = .comma → inside) (hts : BoundTree inside ts) : BoundTree inside (t :: ts)
  | group {inside : Bool} {t u : Token} {inner ts : List Token}
      (hcloser : t.kind.closer? = some u.kind) (hinner : Nested inner)
      (hts : BoundTree inside ts) : BoundTree inside (t :: (inner ++ u :: ts))
  | angles {inside : Bool} {t u : Token} {inner ts : List Token} (hopening : t.kind = .lt)
      (hinner : BoundTree true inner) (hclosing : u.kind = .gt) (hts : BoundTree inside ts) :
      BoundTree inside (t :: (inner ++ u :: ts))

/-- Nothing, or the given sign and bounds behind it. -/
inductive Clause (sign : Kind) : List Token → Prop
  | none : Clause sign []
  | some {t : Token} {ts : List Token} (ht : t.kind = sign) (hts : BoundTree false ts) :
      Clause sign (t :: ts)

/-- A parameter, and its name if it is one of a type. -/
inductive Parameter : List Token → List String → Prop
  | lifetime {t : Token} {bounds : List Token} (ht : t.kind = .lifetime)
      (hbounds : Clause .colon bounds) : Parameter (t :: bounds) []
  | type {t : Token} {bounds standard : List Token} (ht : t.kind = .identifier)
      (hbounds : Clause .colon bounds) (hstandard : Clause .eq standard) :
      Parameter (t :: (bounds ++ standard)) [t.text]
  | const {t name colon : Token} {type standard : List Token} (ht : t.kind = .const)
      (hname : name.kind = .identifier) (hcolon : colon.kind = .colon)
      (htype : BoundTree false type) (hstandard : Clause .eq standard) :
      Parameter (t :: name :: colon :: (type ++ standard)) []

/-- Parameters with commas between them, and perhaps one behind the last, with the names of those
that are types. -/
inductive ParameterList : List Token → List String → Prop
  | nil : ParameterList [] []
  | last {ts : List Token} {names : List String} (h : Parameter ts names) : ParameterList ts names
  | cons {ts more : List Token} {comma : Token} {names others : List String}
      (h : Parameter ts names) (hcomma : comma.kind = .comma) (hmore : ParameterList more others) :
      ParameterList (ts ++ comma :: more) (names ++ others)

/-- **The counter is the same behind bounds as in front of them.** The induction is on the trees:
inside of a pair of angle brackets the counter is positive, so that a comma does not end the
bounds. -/
theorem BoundTree.bounds_append {inside : Bool} {ts : List Token} (h : BoundTree inside ts)
    {depth : Nat} (hdepth : depth = 0 → inside = false) {rest : List Token}
    (hrest : Bounds depth rest) : Bounds depth (ts ++ rest) := by
  induction h generalizing depth rest with
  | nil => exact hrest
  | @plain inside t ts hopens _ hangle hcomma _ ih =>
    have hends : depth = 0 → endsBounds t.kind = false := by
      intro hzero
      have hne : t.kind ≠ .comma := fun h => by cases (hdepth hzero).symm.trans (hcomma h)
      revert hne hangle
      cases t.kind <;> simp [endsBounds]
    have hcounter : angleDepth depth t.kind = depth := by
      revert hangle
      cases t.kind <;> simp [angleDepth]
    exact .plain hends hopens (hcounter.symm ▸ ih hdepth hrest)
  | group hcloser hinner _ ih =>
    rw [List.cons_append, List.append_assoc, List.cons_append]
    exact .group hcloser hinner (ih hdepth hrest)
  | @angles inside t u inner ts hopening _ hclosing _ ihinner ih =>
    have hne : depth + 1 ≠ 0 := Nat.succ_ne_zero depth
    have hbehind : Bounds (depth + 1) (u :: (ts ++ rest)) :=
      .plain (absurd · hne) (by rw [hclosing]; rfl) (by rw [hclosing]; exact ih hdepth hrest)
    have hopened : Bounds (angleDepth depth t.kind) (inner ++ u :: (ts ++ rest)) := by
      rw [hopening]
      exact ihinner (absurd · hne) hbehind
    rw [List.cons_append, List.append_assoc, List.cons_append]
    exact .plain (fun _ => by rw [hopening]; rfl) (by rw [hopening]; rfl) hopened

/-- The sign in front of bounds, or the name of a parameter, is passed with them. -/
theorem Bounds.sign {t : Token} (ht : t.kind = .colon ∨ t.kind = .eq ∨ t.kind = .identifier)
    {ts : List Token} (h : Bounds 0 ts) : Bounds 0 (t :: ts) := by
  obtain ht | ht | ht := ht <;>
    exact .plain (fun _ => by rw [ht]; rfl) (by rw [ht]; rfl) (by rw [ht]; exact h)

/-- A clause in front of bounds is passed with them. -/
theorem Clause.bounds_append {sign : Kind} {ts : List Token} (h : Clause sign ts)
    (hsign : sign = .colon ∨ sign = .eq) {rest : List Token} (hrest : Bounds 0 rest) :
    Bounds 0 (ts ++ rest) := by
  cases h with
  | none => exact hrest
  | some ht hts =>
    exact .sign (by rw [ht]; exact hsign.imp_right .inl) (hts.bounds_append (fun _ => rfl) hrest)

/-- A parameter is the token that starts it and bounds. -/
theorem Parameter.exists_bounds {ts : List Token} {names : List String} (h : Parameter ts names) :
    ∃ t bounds, ts = t :: bounds ∧ startsParameter t.kind ∧ Bounds 0 bounds ∧
      parameterName t = names := by
  cases h with
  | @lifetime t bounds ht hbounds =>
    have hall := hbounds.bounds_append (.inl rfl) .nil
    rw [List.append_nil] at hall
    exact ⟨t, bounds, rfl, by rw [ht]; rfl, hall, by simp [parameterName, ht]⟩
  | @type t bounds standard ht hbounds hstandard =>
    have hall := hbounds.bounds_append (.inl rfl) (hstandard.bounds_append (.inr rfl) .nil)
    rw [List.append_nil] at hall
    exact ⟨t, bounds ++ standard, rfl, by rw [ht]; rfl, hall, by simp [parameterName, ht]⟩
  | @const t name colon type standard ht hname hcolon htype hstandard =>
    have hall := htype.bounds_append (fun _ => rfl) (hstandard.bounds_append (.inr rfl) .nil)
    rw [List.append_nil] at hall
    exact ⟨t, name :: colon :: (type ++ standard), rfl, by rw [ht]; rfl,
      .sign (.inr (.inr hname)) (.sign (.inl hcolon) hall), by simp [parameterName, ht]⟩

/-- A list of parameters gives their names. The induction is on the list. -/
theorem ParameterList.parameters {ts : List Token} {names : List String}
    (h : ParameterList ts names) : Parameters ts names := by
  induction h with
  | nil => exact .nil
  | last h =>
    obtain ⟨t, bounds, rfl, ht, hbounds, rfl⟩ := h.exists_bounds
    exact .last ht hbounds
  | cons h hcomma _ ih =>
    obtain ⟨t, bounds, rfl, ht, hbounds, rfl⟩ := h.exists_bounds
    exact .cons ht hbounds hcomma ih

/-- **The names of the type parameters are read, up to the bracket that closes the list.** Lifetimes
and constants give no name, nothing in bounds and defaults does, and what is behind the bracket is
left. -/
theorem outcome_generics_parameterList (eof : Token) {ts : List Token} {names : List String}
    (h : ParameterList ts names) {opening closing : Token} (hopening : opening.kind = .lt)
    (hclosing : closing.kind = .gt) (ws : List Token) :
    outcome (generics eof (opening :: (ts ++ closing :: ws))) = .ok (names, ws) := by
  rw [outcome_generics_lt eof hopening, outcome_parameterNames eof h.parameters hclosing]

/-- The parameters of `<'a, T: Fn(A) -> B<C, D> = E, const N: usize = { M > 2 },>`. -/
def parametersWithBounds : List Token :=
  [⟨.lifetime, "'a", ⟨1, 2⟩⟩, ⟨.comma, ",", ⟨1, 4⟩⟩,
    ⟨.identifier, "T", ⟨1, 6⟩⟩, ⟨.colon, ":", ⟨1, 7⟩⟩, ⟨.identifier, "Fn", ⟨1, 9⟩⟩,
    ⟨.lparen, "(", ⟨1, 11⟩⟩, ⟨.identifier, "A", ⟨1, 12⟩⟩, ⟨.rparen, ")", ⟨1, 13⟩⟩,
    ⟨.arrow, "->", ⟨1, 15⟩⟩, ⟨.identifier, "B", ⟨1, 18⟩⟩, ⟨.lt, "<", ⟨1, 19⟩⟩,
    ⟨.identifier, "C", ⟨1, 20⟩⟩, ⟨.comma, ",", ⟨1, 21⟩⟩, ⟨.identifier, "D", ⟨1, 23⟩⟩,
    ⟨.gt, ">", ⟨1, 24⟩⟩, ⟨.eq, "=", ⟨1, 26⟩⟩, ⟨.identifier, "E", ⟨1, 28⟩⟩, ⟨.comma, ",", ⟨1, 29⟩⟩,
    ⟨.const, "const", ⟨1, 31⟩⟩, ⟨.identifier, "N", ⟨1, 37⟩⟩, ⟨.colon, ":", ⟨1, 38⟩⟩,
    ⟨.identifier, "usize", ⟨1, 40⟩⟩, ⟨.eq, "=", ⟨1, 46⟩⟩, ⟨.lbrace, "\x7b", ⟨1, 48⟩⟩,
    ⟨.identifier, "M", ⟨1, 50⟩⟩, ⟨.gt, ">", ⟨1, 52⟩⟩, ⟨.number, "2", ⟨1, 54⟩⟩,
    ⟨.rbrace, "\x7d", ⟨1, 56⟩⟩, ⟨.comma, ",", ⟨1, 57⟩⟩]

/-- The comma in `B<C, D>` and the angle bracket in the group end no parameter. -/
theorem outcome_generics_parametersWithBounds :
    let rest : List Token := [⟨.lparen, "(", ⟨1, 59⟩⟩]
    ParameterList parametersWithBounds ["T"] ∧
      outcome (generics (.eof ⟨1, 60⟩)
        (⟨.lt, "<", ⟨1, 1⟩⟩ :: (parametersWithBounds ++ ⟨.gt, ">", ⟨1, 58⟩⟩ :: rest))) =
          .ok (["T"], rest) := by
  intro rest
  have hword {inside : Bool} {ts : List Token} (text : String) (pos : Position)
      (h : BoundTree inside ts) : BoundTree inside (⟨.identifier, text, pos⟩ :: ts) :=
    .plain rfl rfl ⟨nofun, nofun⟩ nofun h
  have hangles : BoundTree true [⟨.identifier, "C", ⟨1, 20⟩⟩, ⟨.comma, ",", ⟨1, 21⟩⟩,
      ⟨.identifier, "D", ⟨1, 23⟩⟩] :=
    hword _ _ (.plain rfl rfl (by decide) (fun _ => rfl) (hword _ _ .nil))
  have hbound := hword "Fn" ⟨1, 9⟩ <| @BoundTree.group false ⟨.lparen, "(", ⟨1, 11⟩⟩
    ⟨.rparen, ")", ⟨1, 13⟩⟩ _ _ rfl (@Nested.plain ⟨.identifier, "A", ⟨1, 12⟩⟩ _ rfl rfl .nil) <|
    @BoundTree.plain false ⟨.arrow, "->", ⟨1, 15⟩⟩ _ rfl rfl (by decide) (fun h => nomatch h) <|
    hword "B" ⟨1, 18⟩ <| @BoundTree.angles false ⟨.lt, "<", ⟨1, 19⟩⟩ ⟨.gt, ">", ⟨1, 24⟩⟩ _ _ rfl
      hangles rfl .nil
  have hgroup := @BoundTree.group false ⟨.lbrace, "\x7b", ⟨1, 48⟩⟩ ⟨.rbrace, "\x7d", ⟨1, 56⟩⟩
    [⟨.identifier, "M", ⟨1, 50⟩⟩, ⟨.gt, ">", ⟨1, 52⟩⟩, ⟨.number, "2", ⟨1, 54⟩⟩] _ rfl
    (.plain rfl rfl <| .plain rfl rfl <| .plain rfl rfl .nil) .nil
  have hlifetime := @Parameter.lifetime ⟨.lifetime, "'a", ⟨1, 2⟩⟩ _ rfl .none
  have htype := @Parameter.type ⟨.identifier, "T", ⟨1, 6⟩⟩ _ _ rfl
    (@Clause.some .colon ⟨.colon, ":", ⟨1, 7⟩⟩ _ rfl hbound)
    (@Clause.some .eq ⟨.eq, "=", ⟨1, 26⟩⟩ _ rfl (hword "E" ⟨1, 28⟩ .nil))
  have hconst := @Parameter.const ⟨.const, "const", ⟨1, 31⟩⟩ ⟨.identifier, "N", ⟨1, 37⟩⟩
    ⟨.colon, ":", ⟨1, 38⟩⟩ _ _ rfl rfl rfl (hword "usize" ⟨1, 40⟩ .nil)
    (@Clause.some .eq ⟨.eq, "=", ⟨1, 46⟩⟩ _ rfl hgroup)
  have hlist : ParameterList parametersWithBounds ["T"] :=
    @ParameterList.cons _ _ ⟨.comma, ",", ⟨1, 4⟩⟩ _ _ hlifetime rfl <|
      @ParameterList.cons _ _ ⟨.comma, ",", ⟨1, 29⟩⟩ _ _ htype rfl <|
      @ParameterList.cons _ _ ⟨.comma, ",", ⟨1, 57⟩⟩ _ _ hconst rfl .nil
  exact ⟨hlist, outcome_generics_parameterList (.eof ⟨1, 60⟩) hlist rfl rfl rest⟩

end Rust
end Ferrotype

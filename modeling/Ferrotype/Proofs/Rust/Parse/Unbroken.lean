/-
# Stretches of tokens that nothing ends

A scan for a token of some kinds passes over whole groups. Tokens are unbroken for it if their
groups are nested and none of them that stands outside the groups stops it; the scan takes all of
them and ends at the first token behind them that stops it or closes a group
(`Unbroken.rawSpan_append`). A scan that also stops at others leaves an unbroken rest
(`Unbroken.exists_rest`).
-/

import Ferrotype.Proofs.Rust.Parse.Local

namespace Ferrotype
namespace Rust

variable {stops : Kind → Bool} {ts : List Token}

/-- Token lists whose groups are nested, with no token outside the groups that stops a scan. -/
inductive Unbroken (stops : Kind → Bool) : List Token → Prop
  | nil : Unbroken stops []
  | plain {t : Token} {ts : List Token} (hopens : t.kind.opens = false)
      (hcloses : t.kind.closes = false) (hstops : stops t.kind = false) (hts : Unbroken stops ts) :
      Unbroken stops (t :: ts)
  | group {t u : Token} {inner ts : List Token} (hcloser : t.kind.closer? = some u.kind)
      (hinner : Nested inner) (hts : Unbroken stops ts) : Unbroken stops (t :: (inner ++ u :: ts))

/-- Nothing stops a scan to the end of a group. -/
theorem Nested.unbroken (h : Nested ts) : Unbroken (fun _ => false) ts := by
  induction h with
  | nil => exact .nil
  | plain hopens hcloses _ ih => exact .plain hopens hcloses rfl ih
  | group hcloser hinner _ _ ih => exact .group hcloser hinner ih

/-- No bracket is both. -/
theorem Kind.not_closes_of_opens {kind : Kind} (h : kind.opens) : kind.closes = false := by
  revert h
  cases kind <;> simp [opens, closes]

/-- Inside a group a scan passes over nested tokens. -/
theorem Nested.rawSpan_append (h : Nested ts) (depth : Nat) (ws : List Token) :
    (rawSpan stops (depth + 1) (ts ++ ws)).2 = (rawSpan stops (depth + 1) ws).2 := by
  induction h generalizing depth ws with
  | nil => rfl
  | plain hopens hcloses _ ih => rw [List.cons_append, rawSpan_inside hopens hcloses, ih]
  | @group t u inner ts hcloser _ _ ihinner ih =>
    have hopens := Kind.opens_of_closer? hcloser
    have hopen (ws : List Token) :
        (rawSpan stops (depth + 1) (t :: ws)).2 = (rawSpan stops (depth + 1 + 1) ws).2 := by
      simp [rawSpan, hopens]
    rw [List.cons_append, List.append_assoc, List.cons_append, hopen, ihinner,
      rawSpan_close (Kind.closes_of_closer? hcloser), ih]

/-- A token that is no bracket and does not stop a scan is passed over. -/
theorem rawSpan_pass {t : Token} (hopens : t.kind.opens = false) (hcloses : t.kind.closes = false)
    (hstop : stops t.kind = false) (ws : List Token) :
    (rawSpan stops 0 (t :: ws)).2 = (rawSpan stops 0 ws).2 := by
  simp [rawSpan, hopens, hcloses, hstop]

/-- A group stops no scan that stops at no opening bracket. -/
theorem rawSpan_group {t u : Token} {inner : List Token} (hstop : stops t.kind = false)
    (hcloser : t.kind.closer? = some u.kind) (hinner : Nested inner) (ws : List Token) :
    (rawSpan stops 0 (t :: (inner ++ u :: ws))).2 = (rawSpan stops 0 ws).2 := by
  have hopens := Kind.opens_of_closer? hcloser
  have hopen (ws : List Token) : (rawSpan stops 0 (t :: ws)).2 = (rawSpan stops 1 ws).2 := by
    simp [rawSpan, hopens, Kind.not_closes_of_opens hopens, hstop]
  rw [hopen, hinner.rawSpan_append 0, rawSpan_close (Kind.closes_of_closer? hcloser)]

/-- Where a scan stops, it takes nothing. -/
theorem rawSpan_stop {u : Token} (hu : stops u.kind ∨ u.kind.closes) (us : List Token) :
    rawSpan stops 0 (u :: us) = ([], u :: us) := by
  rw [rawSpan, if_pos ⟨rfl, hu⟩]

namespace Unbroken

/-- The groups of unbroken tokens are nested. -/
theorem nested (h : Unbroken stops ts) : Nested ts := by
  induction h with
  | nil => exact .nil
  | plain hopens hcloses _ _ ih => exact .plain hopens hcloses ih
  | group hcloser hinner _ ih => exact .group hcloser hinner ih

/-- **A scan takes all of some unbroken tokens**, and nothing behind them. -/
theorem rawSpan_append (hopening : ∀ kind : Kind, kind.opens → stops kind = false)
    (h : Unbroken stops ts) {u : Token} (hu : stops u.kind ∨ u.kind.closes) (us : List Token) :
    rawSpan stops 0 (ts ++ u :: us) = (ts, u :: us) := by
  have hrest : (rawSpan stops 0 (ts ++ u :: us)).2 = u :: us := by
    induction h with
    | nil => exact congrArg Prod.snd (rawSpan_stop hu us)
    | plain hopens hcloses hstops _ ih =>
      rw [List.cons_append, rawSpan_pass hopens hcloses hstops, ih]
    | group hcloser hinner _ ih =>
      rw [List.cons_append, List.append_assoc, List.cons_append,
        rawSpan_group (hopening _ (Kind.opens_of_closer? hcloser)) hcloser hinner, ih]
  have happend := Rust.rawSpan_append stops 0 (ts ++ u :: us)
  rw [hrest] at happend
  exact Prod.ext (List.append_cancel_right happend) hrest

/-- A scan that is kept as text stops somewhere in front of the end, and what it leaves is still
unbroken. -/
theorem exists_rest (h : Unbroken stops ts) {u : Token} (hu : endsRaw u.kind ∨ u.kind.closes)
    (us : List Token) : ∃ left, (rawSpan endsRaw 0 (ts ++ u :: us)).2 = left ++ u :: us ∧
      Unbroken stops left ∧ left <:+ ts := by
  induction h with
  | nil => exact ⟨[], congrArg Prod.snd (rawSpan_stop hu us), .nil, List.suffix_rfl⟩
  | @plain t ts hopens hcloses hstops hts ih =>
    cases hends : endsRaw t.kind with
    | true =>
      exact ⟨t :: ts, congrArg Prod.snd (rawSpan_stop (.inl hends) _),
        .plain hopens hcloses hstops hts, List.suffix_rfl⟩
    | false =>
      obtain ⟨left, hrest, hleft, hsuffix⟩ := ih
      refine ⟨left, ?_, hleft, hsuffix.trans (List.suffix_cons t ts)⟩
      rw [List.cons_append, rawSpan_pass hopens hcloses hends, hrest]
  | @group t v inner ts hcloser hinner _ ih =>
    obtain ⟨left, hrest, hleft, hsuffix⟩ := ih
    have hopens := Kind.opens_of_closer? hcloser
    have hends : endsRaw t.kind = false := by
      revert hopens
      cases t.kind <;> simp [Kind.opens, endsRaw]
    refine ⟨left, ?_, hleft, hsuffix.trans ⟨t :: (inner ++ [v]), by simp⟩⟩
    rw [List.cons_append, List.append_assoc, List.cons_append, rawSpan_group hends hcloser hinner,
      hrest]

/-- What stands behind a token that is no bracket is unbroken. -/
theorem of_cons {t : Token} (h : Unbroken stops (t :: ts)) (hopens : t.kind.opens = false) :
    Unbroken stops ts := by
  cases h with
  | plain _ _ _ hts => exact hts
  | group hcloser =>
    rw [Kind.opens_of_closer? hcloser] at hopens
    cases hopens

/-- No unbroken tokens start with a bracket that closes. -/
theorem not_closes {t : Token} (h : Unbroken stops (t :: ts)) : t.kind.closes = false := by
  cases h with
  | plain _ hcloses => exact hcloses
  | group hcloser => exact Kind.not_closes_of_opens (Kind.opens_of_closer? hcloser)

/-- Behind a bracket that opens stand its group and the bracket that closes it. -/
theorem exists_group {t : Token} {closer : Kind} (h : Unbroken stops (t :: ts))
    (hcloser : t.kind.closer? = some closer) : ∃ inner u more, ts = inner ++ u :: more ∧
      u.kind = closer ∧ Nested inner ∧ Unbroken stops more := by
  cases h with
  | plain hopens =>
    rw [Kind.opens_of_closer? hcloser] at hopens
    cases hopens
  | @group t u inner more hcloser' hinner hmore =>
    exact ⟨inner, u, more, rfl, Option.some.inj (hcloser'.symm.trans hcloser), hinner, hmore⟩

end Unbroken

end Rust
end Ferrotype

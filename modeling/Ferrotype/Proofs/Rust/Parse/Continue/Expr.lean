/-
# Expressions in continued token lists

An expression is tried as a literal or a list first, and if that fails its tokens are kept as text
from the first one on. So it is not enough to look at what is left in the end: a list that was tried
may have been read further. It was not, since an expression takes whole groups only and stops before
a comma or a semicolon outside of them (`rawSpan_parseExpr`); what is tried stays within the group
in which it stands.
-/

import Ferrotype.Proofs.Rust.Parse.Continue
import Ferrotype.Proofs.Rust.Walk.Expr

namespace Ferrotype
namespace Rust

variable {ws ts us : List Token}

/-! ## Expressions take whole groups -/

section Groups

variable {stops : Kind → Bool} (hstops : ∀ kind, stops kind → endsRaw kind)
include hstops

/-- A span goes on in a group that is opened. -/
theorem rawSpan_open {t : Token} (hopens : t.kind.opens) (depth : Nat) (ts : List Token) :
    (rawSpan stops depth (t :: ts)).2 = (rawSpan stops (depth + 1) ts).2 := by
  have hcloses : t.kind.closes = false := by
    revert hopens
    cases t.kind <;> simp [Kind.opens, Kind.closes]
  have hstop : stops t.kind = false := by
    refine Bool.eq_false_iff.2 fun hstop => ?_
    have hends := hstops _ hstop
    revert hopens hends
    cases t.kind <;> simp [Kind.opens, endsRaw]
  simp [rawSpan, hopens, hcloses, hstop]

omit hstops in
/-- It goes on behind a group that is closed. -/
theorem rawSpan_close {t : Token} (hcloses : t.kind.closes) (depth : Nat) (ts : List Token) :
    (rawSpan stops (depth + 1) (t :: ts)).2 = (rawSpan stops depth ts).2 := by
  have hopens : t.kind.opens = false := by
    revert hcloses
    cases t.kind <;> simp [Kind.opens, Kind.closes]
  simp [rawSpan, hopens, hcloses]

omit hstops in
/-- Inside a group every token that is no bracket belongs to a span. -/
theorem rawSpan_inside {t : Token} (hopens : t.kind.opens = false)
    (hcloses : t.kind.closes = false) (depth : Nat) (ts : List Token) :
    (rawSpan stops (depth + 1) (t :: ts)).2 = (rawSpan stops (depth + 1) ts).2 := by
  simp [rawSpan, hopens, hcloses]

/-- A token that is no bracket, comma or semicolon belongs to every span. -/
theorem rawSpan_plain {t : Token} (hopens : t.kind.opens = false) (hcloses : t.kind.closes = false)
    (hends : endsRaw t.kind = false) (depth : Nat) (ts : List Token) :
    (rawSpan stops depth (t :: ts)).2 = (rawSpan stops depth ts).2 := by
  have hstop : stops t.kind = false :=
    Bool.eq_false_iff.2 fun hstop => by simp [hstops _ hstop] at hends
  simp [rawSpan, hopens, hcloses, hstop]

/-- A span that stops at fewer tokens goes on where a span that is kept as text ends. -/
theorem rawSpan_rawSpan (depth inner : Nat) (ts : List Token) :
    (rawSpan stops (depth + inner) ts).2 =
      (rawSpan stops depth (rawSpan endsRaw inner ts).2).2 := by
  induction ts generalizing inner with
  | nil => rfl
  | cons t ts ih =>
    by_cases hopens : t.kind.opens
    · rw [rawSpan_open hstops hopens, rawSpan_open (fun _ => id) hopens, ← ih, Nat.add_assoc]
    · rw [Bool.not_eq_true] at hopens
      by_cases hcloses : t.kind.closes
      · cases inner with
        | zero => simp [rawSpan, hcloses]
        | succ inner => rw [← Nat.add_assoc, rawSpan_close hcloses, rawSpan_close hcloses, ih]
      · rw [Bool.not_eq_true] at hcloses
        by_cases hends : endsRaw t.kind
        · cases inner with
          | zero => simp [rawSpan, hends]
          | succ inner =>
            rw [← Nat.add_assoc, rawSpan_inside hopens hcloses, rawSpan_inside hopens hcloses,
              Nat.add_assoc, ih]
        · rw [Bool.not_eq_true] at hends
          rw [rawSpan_plain hstops hopens hcloses hends,
            rawSpan_plain (fun _ => id) hopens hcloses hends, ih]

/-- An expression that is kept as text ends where a span does. -/
theorem rest_rawExpr (depth : Nat) (ts : List Token) :
    (rawSpan stops depth ts).2 = (rawSpan stops depth (rawExpr ts).rest).2 :=
  rawSpan_rawSpan hstops depth 0 ts

/-- A span that starts at a list ends where it does behind the list, if the members of the list are
balanced. -/
theorem rawSpan_list {eof t : Token} {closer : Kind} {node : List Expr → Expr}
    (h : Encloses t.kind closer node)
    (hlist : ∀ p, parseList eof closer ts = .ok (some p) → closer.closes → ∀ depth,
      (rawSpan stops (depth + 1) ts).2 = (rawSpan stops depth p.rest).2)
    {e : Parsed Expr ((t :: ts).length + 1)} (he : parseExpr eof (t :: ts) = .ok e) (depth : Nat) :
    (rawSpan stops depth (t :: ts)).2 = (rawSpan stops depth e.rest).2 := by
  obtain ⟨hopens, hcloses⟩ := h.opens_closes
  rcases exists_list_of_encloses h he with ⟨-, rfl⟩ | ⟨elements, helements, rfl⟩
  · exact rest_rawExpr hstops depth _
  · rw [rawSpan_open hstops hopens]
    exact hlist elements helements hcloses depth

/-- **Expressions are balanced**: a span that starts at one ends where it does behind it, however
many groups are open. The induction is on the number of tokens, for expressions and lists
together. -/
theorem rawSpan_exprs (eof : Token) :
    (∀ ts e, parseExpr eof ts = .ok e → ∀ depth,
      (rawSpan stops depth ts).2 = (rawSpan stops depth e.rest).2) ∧
    ∀ closer ts p, parseList eof closer ts = .ok (some p) → closer.closes → ∀ depth,
      (rawSpan stops (depth + 1) ts).2 = (rawSpan stops depth p.rest).2 := by
  refine parseExpr.mutual_induct _ _ ?nothing ?reference ?minus ?literal ?array ?group ?raw
    ?noElement ?closer ?element
  case nothing =>
    intro e he depth
    rw [parseExpr] at he
    cases he
    rfl
  case reference =>
    intro t ts hkind ih e he depth
    rw [parseExpr, if_pos hkind] at he
    obtain ⟨e, hinner, he⟩ := exists_of_bind_ok he
    cases he
    rw [rawSpan_plain hstops (by rw [hkind]; rfl) (by rw [hkind]; rfl) (by rw [hkind]; rfl)]
    exact ih e hinner depth
  case minus =>
    intro t ts h₁ hkind ih e he depth
    rw [parseExpr, if_neg h₁, if_pos hkind] at he
    obtain ⟨e, hinner, he⟩ := exists_of_bind_ok he
    cases he
    rw [rawSpan_plain hstops (by rw [hkind]; rfl) (by rw [hkind]; rfl) (by rw [hkind]; rfl)]
    exact ih e hinner depth
  case literal =>
    intro t ts h₁ h₂ kind hliteral e he depth
    rw [parseExpr, if_neg h₁, if_neg h₂] at he
    simp only [hliteral] at he
    obtain ⟨e, -, he⟩ := exists_of_bind_ok he
    cases he
    have hplain : t.kind.opens = false ∧ t.kind.closes = false ∧ endsRaw t.kind = false := by
      revert hliteral
      cases t.kind <;> simp [literalKind?, Kind.opens, Kind.closes, endsRaw]
    exact rawSpan_plain hstops hplain.1 hplain.2.1 hplain.2.2 depth ts
  case array =>
    intro t ts _ _ _ hkind ih e he depth
    exact rawSpan_list hstops (.array hkind) ih he depth
  case group =>
    intro t ts _ _ _ _ hkind ih e he depth
    exact rawSpan_list hstops (.parentheses hkind) ih he depth
  case raw =>
    intro t ts h₁ h₂ hliteral h₃ h₄ e he depth
    rw [parseExpr, if_neg h₁, if_neg h₂] at he
    simp only [hliteral] at he
    rw [if_neg h₃, if_neg h₄] at he
    cases he
    exact rest_rawExpr hstops depth _
  case noElement =>
    intro closer p hp
    rw [parseList] at hp
    cases hp
  case closer =>
    intro t ts p hp hcloses depth
    rw [parseList, if_pos rfl] at hp
    cases hp
    exact rawSpan_close hcloses depth ts
  case element =>
    intro closer t ts hkind ihexpr ih p hp hcloses depth
    rw [parseList, if_neg hkind] at hp
    obtain ⟨e, he, hp⟩ := exists_of_bind_ok hp
    rw [ihexpr e he]
    split at hp
    · cases hp
    · rename_i u us hrest
      rw [hrest]
      split at hp
      · rename_i hcomma
        obtain ⟨more, hmore, hp⟩ := exists_of_bind_ok hp
        cases more with
        | none => cases hp
        | some more =>
          cases hp
          rw [rawSpan_inside (by rw [hcomma]; rfl) (by rw [hcomma]; rfl)]
          exact ih e u us hrest more hmore hcloses depth
      · split at hp
        · rename_i hcloser
          cases hp
          exact rawSpan_close (hcloser ▸ hcloses) depth us
        · cases hp

/-- **An expression takes whole groups, and no comma or semicolon outside of them.** -/
theorem rawSpan_parseExpr {eof : Token} {e : Parsed Expr (ts.length + 1)}
    (he : parseExpr eof ts = .ok e) (depth : Nat) :
    (rawSpan stops depth ts).2 = (rawSpan stops depth e.rest).2 :=
  (rawSpan_exprs hstops eof).1 ts e he depth

end Groups

/-- An expression that stands in a group leaves the bracket that closes it. -/
theorem fromCloser_parseExpr {eof : Token} {e : Parsed Expr (ts.length + 1)}
    (he : parseExpr eof ts = .ok e) (depth : Nat) :
    fromCloser depth ts = fromCloser depth e.rest :=
  rawSpan_parseExpr (by simp) he depth

/-! ## Expressions are read again -/

/-- Whether a list that was tried is tried with the same outcome. -/
def RepeatsList {n m : Nat} (ws : List Token) (list : Option (Parsed (List Expr) n))
    (result : Result (Option (Parsed (List Expr) m))) : Prop :=
  match list with
  | none => result = .ok none
  | some p => ∃ q, result = .ok (some q) ∧ q.value = p.value ∧ Continues ws p.rest q.rest

/-- An expression that is kept as text is read again. -/
theorem repeats_rawExpr (h : Continues ws ts us) (hs : Settled ws (rawExpr ts).rest) :
    Repeats ws (rawExpr ts) (.ok (rawExpr us)) :=
  repeats_ok (congrArg Expr.raw (h.textOf_rawSpan hs)) (h.rawSpan hs).2

section Exprs

variable (eof eof' : Token)

/-- A list is read again if its members are. If it is none, the text that is kept instead ends with
the same token. -/
theorem repeats_list {t : Token} {closer : Kind} {node : List Expr → Expr}
    (hencloses : Encloses t.kind closer node)
    (hlist : ∀ us r, Continues ws ts us → Settled ws (fromCloser 0 ts) →
      parseList eof closer ts = .ok r → RepeatsList ws r (parseList eof' closer us))
    {e : Parsed Expr ((t :: ts).length + 1)} (h : Continues ws (t :: ts) us)
    (he : parseExpr eof (t :: ts) = .ok e) (hs : Settled ws e.rest) :
    Repeats ws e (parseExpr eof' us) := by
  obtain ⟨q, us, rfl, htail⟩ := h.cons
  have hencloses' : Encloses (⟨t.kind, t.text, q⟩ : Token).kind closer node := hencloses
  have hsettled := h.settled_fromCloser hencloses.opens_closes.1
  rw [parseExpr_of_encloses hencloses']
  rcases exists_list_of_encloses hencloses he with ⟨hnone, rfl⟩ | ⟨elements, helements, rfl⟩
  · exact repeats_bind (hlist us none htail hsettled hnone) (repeats_rawExpr h hs)
  · obtain ⟨elements', helements', hvalue, hrest⟩ := hlist us _ htail hsettled helements
    refine repeats_bind helements' (repeats_ok ?_ hrest)
    simp only [Parsed.value_later, Parsed.value_map, hvalue]

/-- **Expressions are read again** in front of anything, and so are lists. The induction is on the
number of tokens, for both together; a list that fails is one that fails again, so that the same
text is kept. -/
theorem repeats_exprs :
    (∀ ts us e, Continues ws ts us → parseExpr eof ts = .ok e → Settled ws e.rest →
      Repeats ws e (parseExpr eof' us)) ∧
    ∀ closer ts us r, Continues ws ts us → Settled ws (fromCloser 0 ts) →
      parseList eof closer ts = .ok r → RepeatsList ws r (parseList eof' closer us) := by
  refine parseExpr.mutual_induct _ _ ?nothing ?reference ?minus ?literal ?array ?group ?raw
    ?noElement ?closer ?element
  case nothing =>
    intro us e h he hs
    rw [parseExpr] at he
    cases he
    obtain ⟨rfl, rfl⟩ := h.eq_nil hs
    rw [parseExpr]
    exact repeats_ok rfl h
  case reference =>
    intro t ts hkind ih us e h he hs
    rw [parseExpr, if_pos hkind] at he
    obtain ⟨e, hinner, he⟩ := exists_of_bind_ok he
    cases he
    obtain ⟨q, us, rfl, htail⟩ := h.cons
    obtain ⟨e', hinner', hvalue, hrest⟩ := ih us e htail hinner hs
    rw [parseExpr, if_pos hkind]
    exact repeats_bind hinner' (repeats_ok hvalue hrest)
  case minus =>
    intro t ts h₁ hkind ih us e h he hs
    rw [parseExpr, if_neg h₁, if_pos hkind] at he
    obtain ⟨e, hinner, he⟩ := exists_of_bind_ok he
    cases he
    obtain ⟨q, us, rfl, htail⟩ := h.cons
    obtain ⟨e', hinner', hvalue, hrest⟩ := ih us e htail hinner hs
    rw [parseExpr, if_neg h₁, if_pos hkind]
    refine repeats_bind hinner' (repeats_ok ?_ hrest)
    simp only [Parsed.value_later, Parsed.value_map, hvalue]
  case literal =>
    intro t ts h₁ h₂ kind hkind us e h he hs
    rw [parseExpr, if_neg h₁, if_neg h₂] at he
    simp only [hkind] at he
    obtain ⟨value, hvalue, he⟩ := exists_of_bind_ok he
    cases he
    obtain ⟨q, us, rfl, htail⟩ := h.cons
    rw [parseExpr, if_neg h₁, if_neg h₂]
    simp only [hkind]
    have hvalue' : literalExpr ⟨t.kind, t.text, q⟩ kind = .ok value := hvalue
    exact repeats_bind hvalue' (repeats_ok rfl htail)
  case array =>
    intro t ts _ _ _ hkind ih us e h he hs
    exact repeats_list eof eof' (.array hkind) ih h he hs
  case group =>
    intro t ts _ _ _ _ hkind ih us e h he hs
    exact repeats_list eof eof' (.parentheses hkind) ih h he hs
  case raw =>
    intro t ts h₁ h₂ hliteral h₃ h₄ us e h he hs
    rw [parseExpr, if_neg h₁, if_neg h₂] at he
    simp only [hliteral] at he
    rw [if_neg h₃, if_neg h₄] at he
    cases he
    obtain ⟨q, us, rfl, -⟩ := h.cons
    rw [parseExpr, if_neg h₁, if_neg h₂]
    simp only [hliteral]
    rw [if_neg h₃, if_neg h₄]
    exact repeats_rawExpr h hs
  case noElement =>
    intro closer us r h hs hr
    rw [parseList] at hr
    cases hr
  case closer =>
    intro t ts us r h hs hr
    rw [parseList, if_pos rfl] at hr
    cases hr
    obtain ⟨q, us, rfl, htail⟩ := h.cons
    rw [parseList, if_pos rfl]
    exact ⟨_, rfl, rfl, htail⟩
  case element =>
    intro closer t ts hkind ihexpr ih us r h hs hr
    rw [parseList, if_neg hkind] at hr
    obtain ⟨e, he, hr⟩ := exists_of_bind_ok hr
    -- the group is closed behind the first member, so the token behind that is known
    rw [fromCloser_parseExpr he] at hs
    have hrepeats := ihexpr us e h he (hs.of_suffix (Walk.passes_skipRaw _ _ _).suffix)
    obtain ⟨q, us, rfl, -⟩ := h.cons
    split at hr
    · -- the tokens end behind the first member
      rename_i hrest
      cases hr
      obtain ⟨e', he', -, hleft⟩ := hrepeats
      rw [hrest] at hleft hs
      obtain ⟨hnil, -⟩ := hleft.eq_nil hs
      rw [parseList, if_neg hkind, he']
      simp only [bind, Except.bind]
      split
      · rfl
      · rename_i heq
        cases hnil.symm.trans heq
    · rename_i u us' hrest
      obtain ⟨r', vs, hshorter, he', htail⟩ := hrepeats.exists_cons hrest
      rw [hrest] at hs
      rw [parseList, if_neg hkind, he']
      simp only [bind, Except.bind]
      split at hr
      · -- a comma, and the other members
        rename_i hcomma
        obtain ⟨more, hmore, hr⟩ := exists_of_bind_ok hr
        have hinside : fromCloser 0 (u :: us') = fromCloser 0 us' := by
          simp [fromCloser, rawSpan, hcomma, Kind.opens, Kind.closes]
        rw [hinside] at hs
        have hlist := ih e u us' hrest _ more htail hs hmore
        rw [if_pos hcomma]
        cases more with
        | none =>
          cases hr
          rw [hlist]
          rfl
        | some more =>
          cases hr
          obtain ⟨more', hmore', hvalues, hrest'⟩ := hlist
          rw [hmore']
          exact ⟨_, rfl, congrArg (e.value :: ·) hvalues, hrest'⟩
      · rename_i hcomma
        rw [if_neg hcomma]
        split at hr
        · rename_i hcloser
          cases hr
          rw [if_pos hcloser]
          exact ⟨_, rfl, rfl, htail⟩
        · -- no list: neither a comma nor the closing token stands there
          rename_i hcloser
          cases hr
          rw [if_neg hcloser]
          rfl

/-- The same of one expression. -/
theorem repeats_parseExpr {e : Parsed Expr (ts.length + 1)} (h : Continues ws ts us)
    (he : parseExpr eof ts = .ok e) (hs : Settled ws e.rest) :
    Repeats ws e (parseExpr eof' us) :=
  (repeats_exprs eof eof').1 ts us e h he hs

/-- The initializer of a constant is read again, as an expression that ends at its semicolon or as
text. -/
theorem repeats_initializer {e : Parsed Expr (ts.length + 1)} (h : Continues ws ts us)
    (he : initializer eof ts = .ok e) (hs : Settled ws e.rest) :
    Repeats ws e (initializer eof' us) := by
  rw [initializer] at he
  obtain ⟨first, hfirst, he⟩ := exists_of_bind_ok he
  -- Also when the text up to the semicolon is taken, the expression that was tried ends before it.
  have hsettled : Settled ws first.rest := by
    split at he
    · cases he
      exact hs
    · cases he
      have hstops : ∀ kind : Kind, kind == .semicolon → endsRaw kind := by
        simp +contextual [endsRaw]
      change Settled ws (rawSpan (· == .semicolon) 0 ts).2 at hs
      rw [rawSpan_parseExpr hstops hfirst] at hs
      exact hs.of_suffix (Walk.passes_skipRaw _ _ _).suffix
  obtain ⟨first', hfirst', hvalue, hleft⟩ := repeats_parseExpr eof eof' h hfirst hsettled
  refine repeats_bind hfirst' ?_
  rw [hleft.headKind hsettled]
  split at he
  · rename_i hsemicolon
    cases he
    rw [if_pos hsemicolon]
    exact repeats_ok hvalue hleft
  · rename_i hsemicolon
    cases he
    rw [if_neg hsemicolon]
    exact repeats_ok (congrArg Expr.raw (h.textOf_rawSpan hs)) (h.rawSpan hs).2

/-- The value of a constant is read again, also if there is none. -/
theorem repeats_constValue {p : Parsed (Option Expr) (ts.length + 1)} (h : Continues ws ts us)
    (hp : constValue eof ts = .ok p) (hs : Settled ws p.rest) :
    Repeats ws p (constValue eof' us) := by
  cases ts with
  | nil =>
    cases hp
    obtain ⟨rfl, rfl⟩ := h.eq_nil hs
    exact repeats_ok rfl h
  | cons t ts =>
    obtain ⟨q, us, rfl, htail⟩ := h.cons
    rw [constValue] at hp ⊢
    split at hp
    · rename_i heq
      obtain ⟨e, he, hp⟩ := exists_of_bind_ok hp
      cases hp
      obtain ⟨e', he', hvalue, hrest⟩ := repeats_initializer eof eof' htail he hs
      rw [if_pos heq]
      exact repeats_bind he' (repeats_ok (congrArg some hvalue) hrest)
    · rename_i heq
      cases hp
      rw [if_neg heq]
      exact repeats_ok rfl h

end Exprs

end Rust
end Ferrotype

/-
# Preambles and type parameters in continued token lists

The arguments of an attribute and a list of type parameters are read again up to the bracket that
closes them. A preamble is read again if the token behind it is known; in sealed tokens it always
is, for a preamble ends no item.
-/

import Ferrotype.Proofs.Rust.Parse.Continue
import Ferrotype.Proofs.Rust.Walk.Attribute

namespace Ferrotype
namespace Rust

variable {ws ts us : List Token}

/-! ## Attributes -/

section Attributes

variable {eof : Token} (eof' : Token)

/-- The texts inside a group are found again. -/
theorem groupText_continues (h : Continues ws ts us) (hs : Settled ws ts) :
    groupText us (dropUnit us) = groupText ts (dropUnit ts) := by
  have hlength := h.length
  have hrest := (h.dropUnit hs).length
  have hle := length_dropUnit_le ts
  have htake : us.length - (dropUnit us).length = ts.length - (dropUnit ts).length := by omega
  have htexts := h.texts_take (Nat.sub_le ts.length (dropUnit ts).length)
  simp only [groupText, List.map_dropLast, List.map_drop, htake, htexts]

/-- What stands behind the key of an argument is read again. The cases are a value, a list in
parentheses, and neither. -/
theorem exists_argumentAfter {parts : List String} {r : Argument × List Token}
    (h : Continues ws ts us) (hr : argumentAfter eof parts ts = .ok r) (hs : r.2 ≠ []) :
    ∃ r', argumentAfter eof' parts us = .ok r' ∧ r'.1 = r.1 ∧ Continues ws r.2 r'.2 := by
  cases ts with
  | nil =>
    cases hr
    exact absurd rfl hs
  | cons t ts =>
    obtain ⟨q, us, rfl, htail⟩ := h.cons
    simp only [argumentAfter] at hr ⊢
    split at hr
    · rename_i heq
      obtain ⟨value, hvalue, hr⟩ := exists_of_bind_ok hr
      cases hr
      rw [if_pos heq]
      cases ts with
      | nil => exact absurd rfl hs
      | cons v ts =>
        obtain ⟨r, us, rfl, hrest⟩ := htail.cons
        have hvalue' : argumentValue eof' (⟨v.kind, v.text, r⟩ :: us) = .ok value := hvalue
        rw [hvalue']
        exact ⟨_, rfl, rfl, hrest⟩
    · rename_i heq
      rw [if_neg heq]
      split at hr
      · rename_i hparen
        cases hr
        rw [if_pos hparen, groupText_continues h (settled_cons t ts)]
        exact ⟨_, rfl, rfl, h.dropUnit (settled_cons t ts)⟩
      · rename_i hparen
        rw [if_neg hparen]
        split at hr
        · rename_i hparts
          cases hr
          rw [if_pos hparts]
          exact ⟨_, rfl, rfl, htail⟩
        · rename_i hparts
          cases hr
          rw [if_neg hparts]
          exact ⟨_, rfl, rfl, h⟩

/-- An argument is read again. -/
theorem repeats_argument {t : Token} {p : Parsed Argument (t :: ts).length}
    (h : Continues ws (t :: ts) us) (hp : argument eof t ts = .ok p) (hs : p.rest ≠ []) :
    ∃ q us', us = ⟨t.kind, t.text, q⟩ :: us' ∧
      Repeats ws p (argument eof' ⟨t.kind, t.text, q⟩ us') := by
  obtain ⟨q, us, rfl, htail⟩ := h.cons
  refine ⟨q, us, rfl, ?_⟩
  unfold argument at hp ⊢
  split at hp
  · rename_i hkind
    obtain ⟨text, htext, hp⟩ := exists_of_bind_ok hp
    cases hp
    rw [if_pos hkind]
    exact repeats_bind htext (repeats_ok rfl htail)
  · rename_i hkind
    rw [if_neg hkind]
    split at hp
    · cases hp
    · rename_i r hr
      cases hp
      have hpath : Settled ws (path (t :: ts)).2 :=
        Settled.of_suffix (.inl hs) ((Walk.follows_argumentAfter _ _).suffix hr)
      obtain ⟨hparts, hleft⟩ := h.path hpath
      obtain ⟨r', hr', hargument, hrest⟩ := exists_argumentAfter eof' hleft hr hs
      rw [← hparts] at hr'
      split
      · rename_i heq
        cases heq.symm.trans hr'
      · rename_i heq
        obtain rfl := Except.ok.inj (heq.symm.trans hr')
        exact repeats_ok hargument hrest

/-- Arguments are read again. The induction is on the tokens, and the closing parenthesis is among
them. -/
theorem repeats_arguments {p : Parsed (List Argument) ts.length} (h : Continues ws ts us)
    (hp : arguments eof ts = .ok p) : Repeats ws p (arguments eof' us) := by
  induction ts using arguments.induct generalizing us with
  | case1 =>
    rw [arguments] at hp
    cases hp
  | case2 t ts hkind =>
    rw [arguments, if_pos hkind] at hp
    cases hp
    obtain ⟨q, us, rfl, htail⟩ := h.cons
    rw [arguments, if_pos hkind]
    exact repeats_ok rfl htail
  | case3 t ts hkind ih =>
    rw [arguments, if_neg hkind] at hp
    obtain ⟨arg, harg, hp⟩ := exists_of_bind_ok hp
    obtain ⟨more, hmore, hp⟩ := exists_of_bind_ok hp
    cases hp
    have hrest : arg.rest ≠ [] := fun hnil => ne_nil_of_parsed more (by rw [hnil]; rfl)
    obtain ⟨q, us, rfl, arg', harg', hvalue, hleft⟩ := repeats_argument eof' h harg hrest
    obtain ⟨more', hmore', hvalues, hend⟩ := ih arg (hleft.dropIf (.inl hrest) .comma) hmore
    rw [arguments, if_neg hkind]
    refine repeats_bind harg' (repeats_bind hmore' (repeats_ok ?_ hend))
    simp only [Parsed.value_widen, Parsed.value_later, Parsed.value_map, hvalue, hvalues]

/-- The arguments of an attribute are read again: those in parentheses, a value behind an equals
sign, or none. -/
theorem repeats_attributeArguments {p : Parsed (List Argument) (ts.length + 1)}
    (h : Continues ws ts us) (hp : attributeArguments eof ts = .ok p) (hs : p.rest ≠ []) :
    Repeats ws p (attributeArguments eof' us) := by
  cases ts with
  | nil =>
    cases hp
    exact absurd rfl hs
  | cons t ts =>
    obtain ⟨q, us, rfl, htail⟩ := h.cons
    simp only [attributeArguments] at hp ⊢
    split at hp
    · rename_i heq
      obtain ⟨text, htext, hp⟩ := exists_of_bind_ok hp
      cases hp
      rw [if_pos heq]
      cases ts with
      | nil => exact absurd rfl hs
      | cons v ts =>
        obtain ⟨r, us, rfl, hrest⟩ := htail.cons
        exact repeats_bind htext (repeats_ok rfl hrest)
    · rename_i heq
      rw [if_neg heq]
      split at hp
      · rename_i hparen
        obtain ⟨args, hargs, hp⟩ := exists_of_bind_ok hp
        cases hp
        rw [if_pos hparen]
        obtain ⟨args', hargs', hvalue, hrest⟩ := repeats_arguments eof' htail hargs
        exact repeats_bind hargs' (repeats_ok hvalue hrest)
      · rename_i hparen
        cases hp
        rw [if_neg hparen]
        exact repeats_ok rfl h

/-- An attribute is read again. -/
theorem repeats_attributeBody {p : Parsed Attribute ts.length} (h : Continues ws ts us)
    (hp : attributeBody eof ts = .ok p) : Repeats ws p (attributeBody eof' us) := by
  obtain ⟨args, hargs, hp⟩ := exists_of_bind_ok hp
  obtain ⟨closing, hclosing, hp⟩ := exists_of_bind_ok hp
  cases hp
  have hbracket : Settled ws (dropToBracket args.rest) := .inl (ne_nil_of_parsed closing)
  have hargsRest : args.rest ≠ [] := fun hnil =>
    ne_nil_of_parsed closing (by rw [hnil, dropToBracket])
  have hpath : Settled ws (path ts).2 :=
    (hbracket.of_suffix (Walk.passes_skipTo_bracket _).suffix).of_suffix
      ((Walk.follows_attributeArguments _).suffix hargs)
  obtain ⟨hparts, hleft⟩ := h.path hpath
  obtain ⟨args', hargs', hvalue, hrest⟩ :=
    repeats_attributeArguments eof' hleft hargs hargsRest
  obtain ⟨closing', hclosing', -, hend⟩ := exists_expect (hrest.dropToBracket hbracket) hclosing
  refine repeats_bind hargs' (repeats_bind hclosing' (repeats_ok ?_ hend))
  simp only [hparts, hvalue]

/-! ## Preambles -/

/-- What stands in front of an item is read again. The induction is on the tokens; documentation and
attributes may follow each other in any order. -/
theorem repeats_preamble {p : Parsed Preamble (ts.length + 1)} (h : Continues ws ts us)
    (hp : preamble eof ts = .ok p) (hs : Settled ws p.rest) :
    Repeats ws p (preamble eof' us) := by
  induction ts using preamble.induct generalizing us with
  | case1 =>
    rw [preamble] at hp
    cases hp
    obtain ⟨rfl, rfl⟩ := h.eq_nil hs
    rw [preamble]
    exact repeats_ok rfl h
  | case2 t ts hkind ih =>
    rw [preamble, if_pos hkind] at hp
    obtain ⟨more, hmore, hp⟩ := exists_of_bind_ok hp
    cases hp
    obtain ⟨q, us, rfl, htail⟩ := h.cons
    obtain ⟨more', hmore', hvalue, hrest⟩ := ih htail hmore hs
    rw [preamble, if_pos hkind]
    refine repeats_bind hmore' (repeats_ok ?_ hrest)
    simp only [Parsed.value_later, Parsed.value_map, hvalue]
  | case3 t ts h₁ hkind ih =>
    rw [preamble, if_neg h₁, if_pos hkind] at hp
    obtain ⟨a, ha, hp⟩ := exists_of_bind_ok hp
    obtain ⟨more, hmore, hp⟩ := exists_of_bind_ok hp
    cases hp
    obtain ⟨q, us, rfl, htail⟩ := h.cons
    have hsettled := h.settled_tail (by rw [hkind.1]; rfl)
    obtain ⟨a', ha', hvalue, hleft⟩ :=
      repeats_attributeBody eof' (htail.drop_one hsettled) ha
    obtain ⟨more', hmore', hvalues, hrest⟩ := ih a hleft hmore hs
    rw [← htail.headKind hsettled] at hkind
    rw [preamble, if_neg h₁, if_pos hkind]
    refine repeats_bind ha' (repeats_bind hmore' (repeats_ok ?_ hrest))
    simp only [Parsed.value_later, Parsed.value_widen, Parsed.value_map, hvalue, hvalues]
  | case4 t ts h₁ h₂ =>
    rw [preamble, if_neg h₁, if_neg h₂] at hp
    cases hp
    obtain ⟨q, us, rfl, htail⟩ := h.cons
    have h₂' : ¬ (t.kind = .hash ∧ headKind us = .lbracket) := fun hkind => by
      rw [htail.headKind (h.settled_tail (by rw [hkind.1]; rfl))] at hkind
      exact h₂ hkind
    rw [preamble, if_neg h₁, if_neg h₂']
    exact repeats_ok rfl h

/-! ## Type parameters -/

/-- Parameters are read again. -/
theorem repeats_parameterNames {p : Parsed (List String) ts.length} (h : Continues ws ts us)
    (hp : parameterNames eof ts = .ok p) : Repeats ws p (parameterNames eof' us) := by
  induction ts using parameterNames.induct generalizing us with
  | case1 =>
    rw [parameterNames] at hp
    cases hp
  | case2 t ts hkind =>
    rw [parameterNames, dif_pos hkind] at hp
    cases hp
    obtain ⟨q, us, rfl, htail⟩ := h.cons
    rw [parameterNames, dif_pos hkind]
    exact repeats_ok rfl htail
  | case3 t ts hkind hlt ih =>
    rw [parameterNames, dif_neg hkind] at hp
    obtain ⟨more, hmore, hp⟩ := exists_of_bind_ok hp
    cases hp
    obtain ⟨q, us, rfl, hleft⟩ := h.dropParameter (.inl (ne_nil_of_parsed more))
    obtain ⟨more', hmore', hvalue, hrest⟩ := ih hleft hmore
    rw [parameterNames, dif_neg hkind]
    refine repeats_bind hmore' (repeats_ok ?_ hrest)
    simp only [Parsed.value_widen, Parsed.value_later, Parsed.value_map, hvalue]

/-- Parameters are read again with their brackets, also if there are none. -/
theorem repeats_generics {p : Parsed (List String) (ts.length + 1)} (h : Continues ws ts us)
    (hp : generics eof ts = .ok p) (hs : Settled ws p.rest) :
    Repeats ws p (generics eof' us) := by
  cases ts with
  | nil =>
    cases hp
    obtain ⟨rfl, rfl⟩ := h.eq_nil hs
    exact repeats_ok rfl h
  | cons t ts =>
    obtain ⟨q, us, rfl, htail⟩ := h.cons
    simp only [generics] at hp ⊢
    split at hp
    · rename_i hkind
      obtain ⟨names, hnames, hp⟩ := exists_of_bind_ok hp
      cases hp
      obtain ⟨names', hnames', hvalue, hrest⟩ := repeats_parameterNames eof' htail hnames
      rw [if_pos hkind]
      exact repeats_bind hnames' (repeats_ok hvalue hrest)
    · rename_i hkind
      cases hp
      rw [if_neg hkind]
      exact repeats_ok rfl h

end Attributes

end Rust
end Ferrotype

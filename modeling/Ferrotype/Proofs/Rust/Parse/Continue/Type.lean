/-
# Types in continued token lists

A type is read again if the token behind it is known; type arguments and the elements of a tuple are
read again up to the bracket that closes them. As these are read together, one induction is on all
three.
-/

import Ferrotype.Proofs.Rust.Canonical.Type.Reading
import Ferrotype.Proofs.Rust.Parse.Continue
import Ferrotype.Proofs.Rust.Walk.Type

namespace Ferrotype
namespace Rust

variable {ws ts us : List Token}

/-- An argument that is no type is passed over again. -/
theorem exists_skippedArgument? {t : Token} {skipped : Parsed Unit (t :: ts).length}
    (h : Continues ws (t :: ts) us) (hskipped : skippedArgument? t ts = some skipped)
    (hs : Settled ws skipped.rest) :
    ∃ q us', us = ⟨t.kind, t.text, q⟩ :: us' ∧
      ∃ skipped', skippedArgument? ⟨t.kind, t.text, q⟩ us' = some skipped' ∧
        Continues ws skipped.rest skipped'.rest := by
  obtain ⟨q, us, rfl, htail⟩ := h.cons
  refine ⟨q, us, rfl, ?_⟩
  unfold skippedArgument? at hskipped ⊢
  split at hskipped
  · rename_i hkind
    cases hskipped
    exact ⟨_, if_pos hkind, htail⟩
  · rename_i hlifetime
    split at hskipped
    · rename_i hkind
      cases hskipped
      have hkind' : startsConstant t.kind ∨
          t.kind = .identifier ∧ (headKind us = .eq ∨ headKind us = .colon) := by
        refine hkind.imp_right fun hname => ?_
        rwa [htail.headKind (h.settled_tail (by rw [hname.1]; rfl))]
      rw [if_neg hlifetime, dif_pos hkind']
      exact ⟨_, rfl, h.dropBounds hs⟩
    · cases hskipped

/-- An argument that is a type is none to be passed over. -/
theorem skippedArgument?_eq_none {t : Token} (h : Continues ws (t :: ts) us)
    (hskipped : skippedArgument? t ts = none) :
    ∃ q us', us = ⟨t.kind, t.text, q⟩ :: us' ∧
      skippedArgument? ⟨t.kind, t.text, q⟩ us' = none := by
  obtain ⟨q, us, rfl, htail⟩ := h.cons
  refine ⟨q, us, rfl, ?_⟩
  unfold skippedArgument? at hskipped ⊢
  split at hskipped
  · cases hskipped
  · rename_i hlifetime
    split at hskipped
    · cases hskipped
    · rename_i hkind
      rw [if_neg hlifetime, dif_neg]
      refine fun hkind' => hkind (hkind'.imp_right fun hname => ?_)
      rwa [htail.headKind (h.settled_tail (by rw [hname.1]; rfl))] at hname

/-! ## Paths -/

/-- What starts a path still does. -/
theorem StartsPath.continues {t : Token} (hstarts : StartsPath t ts) {q : Position}
    (h : Continues ws (t :: ts) (⟨t.kind, t.text, q⟩ :: us)) (hs : Settled ws (path (t :: ts)).2) :
    StartsPath ⟨t.kind, t.text, q⟩ us :=
  ⟨hstarts.reference, hstarts.parenthesis, hstarts.bracket, hstarts.bang, hstarts.verbatim,
    (h.path hs).1 ▸ hstarts.parts⟩

section Path

variable {eof : Token} (eof' : Token) {t : Token} (hstarts : StartsPath t ts)
  (h : Continues ws (t :: ts) us) {p : Parsed TypeExpr (t :: ts).length}
  (hp : parseType eof (t :: ts) = .ok p)
include hstarts h hp

/-- A path without arguments is read again. -/
theorem repeats_path (hhead : headKind (dropTurbofish (path (t :: ts)).2) ≠ .lt)
    (hs : Settled ws p.rest) : Repeats ws p (parseType eof' us) := by
  obtain ⟨r, hr, hvalue, hrest⟩ := parseType_of_headKind eof hstarts hhead
  obtain rfl := Except.ok.inj (hp.symm.trans hr)
  rw [hrest] at hs
  have hpath := hs.of_suffix (Walk.passes_skipTurbofish _).suffix
  have hleft := (h.path hpath).2.dropTurbofish hpath
  obtain ⟨q, us, rfl, -⟩ := h.cons
  obtain ⟨r, hr, hvalue', hrest'⟩ := parseType_of_headKind eof' (hstarts.continues h hpath)
    (by rwa [hleft.headKind hs])
  refine ⟨r, hr, ?_, ?_⟩
  · rw [hvalue, hvalue', (h.path hpath).1]
  · rwa [hrest, hrest']

/-- A path with arguments is read again if they are. -/
theorem repeats_applied {u : Token} {vs : List Token}
    (hturbofish : dropTurbofish (path (t :: ts)).2 = u :: vs) (hu : u.kind = .lt)
    {args : Parsed (List TypeExpr) vs.length} (hargs : parseArguments eof vs = .ok args)
    (hrepeats : ∀ us, Continues ws vs us → Repeats ws args (parseArguments eof' us)) :
    Repeats ws p (parseType eof' us) := by
  obtain ⟨r, hr, hvalue, hrest⟩ := parseType_of_parseArguments eof hstarts hturbofish hu hargs
  obtain rfl := Except.ok.inj (hp.symm.trans hr)
  have hs : Settled ws (dropTurbofish (path (t :: ts)).2) := hturbofish ▸ settled_cons u vs
  have hpath := hs.of_suffix (Walk.passes_skipTurbofish _).suffix
  have hleft := (h.path hpath).2.dropTurbofish hpath
  obtain ⟨q, us, rfl, -⟩ := h.cons
  rw [hturbofish] at hleft
  obtain ⟨_, vs', hturbofish', hleft⟩ := hleft.cons
  obtain ⟨args', hargs', hvalue', hrest'⟩ := hrepeats vs' hleft
  obtain ⟨r, hr, hvalue'', hrest''⟩ := parseType_of_parseArguments eof'
    (hstarts.continues h hpath) hturbofish' hu hargs'
  refine ⟨r, hr, ?_, ?_⟩
  · rw [hvalue, hvalue'', (h.path hpath).1, hvalue']
  · rwa [hrest, hrest'']

end Path

/-! ## Types -/

section Types

variable (eof eof' : Token)

/-- **Types are read again** in front of anything, and so are arguments and elements. The induction
is on the number of tokens, for all three together, and the cases are those of the parser: a type
that is kept as text, a reference, an array or a slice, parentheses, and a path. -/
theorem repeats_types :
    (∀ ts us p, Continues ws ts us → parseType eof ts = .ok p → Settled ws p.rest →
      Repeats ws p (parseType eof' us)) ∧
    (∀ ts us p, Continues ws ts us → parseArguments eof ts = .ok p →
      Repeats ws p (parseArguments eof' us)) ∧
    ∀ ts comma us p, Continues ws ts us → parseElements eof ts comma = .ok p →
      Repeats ws p (parseElements eof' us comma) := by
  refine parseType.mutual_induct eof _ _ _ ?nothing ?reference ?tuple ?array ?never ?verbatim
    ?noPath ?wholePath ?applied ?plainPath ?noArgument ?closingAngle ?skippedArgument ?typeArgument
    ?noElement ?closingParenthesis ?element
  case nothing =>
    intro us p h hp
    rw [parseType] at hp
    cases hp
  case reference =>
    intro t ts hkind ih us p h hp hs
    rw [parseType, if_pos hkind] at hp
    obtain ⟨inner, hinner, hp⟩ := exists_of_bind_ok hp
    cases hp
    obtain ⟨q, us, rfl, htail⟩ := h.cons
    have hreference := htail.dropReference (hs.of_suffix ((Walk.follows_type _).suffix hinner))
    obtain ⟨inner', hinner', hvalue, hrest⟩ := ih _ inner hreference hinner hs
    rw [parseType, if_pos hkind]
    exact repeats_bind hinner' (repeats_ok hvalue hrest)
  case tuple =>
    -- the closing parenthesis is among the tokens, so nothing is asked of what is left
    intro t ts h₁ hkind ih us p h hp hs
    rw [parseType, if_neg h₁, if_pos hkind] at hp
    obtain ⟨elements, helements, hp⟩ := exists_of_bind_ok hp
    cases hp
    obtain ⟨q, us, rfl, htail⟩ := h.cons
    obtain ⟨elements', helements', hvalue, hrest⟩ := ih _ elements htail helements
    rw [parseType, if_neg h₁, if_pos hkind]
    refine repeats_bind helements' (repeats_ok ?_ hrest)
    simp only [Parsed.value_later, Parsed.value_map, hvalue]
  case array =>
    intro t ts h₁ h₂ hkind ih us p h hp hs
    rw [parseType, if_neg h₁, if_neg h₂, if_pos hkind] at hp
    obtain ⟨element, helement, hp⟩ := exists_of_bind_ok hp
    obtain ⟨closing, hclosing, hp⟩ := exists_of_bind_ok hp
    cases hp
    obtain ⟨q, us, rfl, htail⟩ := h.cons
    -- behind the length stands the bracket that closes the array
    have hlength : Settled ws (dropLength element.rest) := .inl (ne_nil_of_parsed closing)
    obtain ⟨element', helement', hvalue, hrest⟩ :=
      ih _ element htail helement (hlength.of_suffix (Walk.passes_skipLength _).suffix)
    obtain ⟨closing', hclosing', -, hrest⟩ :=
      exists_expect (hrest.dropLength hlength) hclosing
    rw [parseType, if_neg h₁, if_neg h₂, if_pos hkind]
    refine repeats_bind helement' (repeats_bind hclosing' (repeats_ok ?_ hrest))
    simp only [Parsed.value_later, Parsed.value_widen, Parsed.value_map, hvalue]
  case never =>
    intro t ts h₁ h₂ h₃ hkind us p h hp hs
    rw [parseType, if_neg h₁, if_neg h₂, if_neg h₃, if_pos hkind] at hp
    cases hp
    obtain ⟨q, us, rfl, htail⟩ := h.cons
    rw [parseType, if_neg h₁, if_neg h₂, if_neg h₃, if_pos hkind]
    exact repeats_ok rfl htail
  case verbatim =>
    intro t ts h₁ h₂ h₃ h₄ hstarts us p h hp hs
    rw [parseType, if_neg h₁, if_neg h₂, if_neg h₃, if_neg h₄, dif_pos hstarts] at hp
    cases hp
    obtain ⟨q, us, rfl, -⟩ := h.cons
    have hspan := h.verbatimSpan hs
    have hstarts' : startsVerbatim ⟨t.kind, t.text, q⟩ := hstarts
    rw [parseType, if_neg h₁, if_neg h₂, if_neg h₃, if_neg h₄, dif_pos hstarts']
    exact repeats_ok (congrArg (TypeExpr.verbatim ∘ joinTokens) hspan.1) hspan.2
  case noPath =>
    intro t ts h₁ h₂ h₃ h₄ h₅ hpath us p h hp
    rw [parseType, if_neg h₁, if_neg h₂, if_neg h₃, if_neg h₄, dif_neg h₅, dif_pos hpath] at hp
    cases hp
  case wholePath =>
    intro t ts h₁ h₂ h₃ h₄ h₅ hpath hrest us p h hp hs
    exact repeats_path eof' ⟨h₁, h₂, h₃, h₄, h₅, hpath⟩ h hp
      (by rw [hrest]; exact Kind.noConfusion) hs
  case applied =>
    intro t ts h₁ h₂ h₃ h₄ h₅ hpath u us hrest hlt hkind ih vs p h hp hs
    have hstarts : StartsPath t ts := ⟨h₁, h₂, h₃, h₄, h₅, hpath⟩
    obtain ⟨_, hparse⟩ := parseType_of_lt eof hstarts hrest hkind
    obtain ⟨args, hargs, -⟩ := exists_of_bind_ok (hparse.symm.trans hp)
    exact repeats_applied eof' hstarts h hp hrest hkind hargs fun us hus => ih us args hus hargs
  case plainPath =>
    intro t ts h₁ h₂ h₃ h₄ h₅ hpath u us hrest hlt hkind vs p h hp hs
    exact repeats_path eof' ⟨h₁, h₂, h₃, h₄, h₅, hpath⟩ h hp (by rwa [hrest]) hs
  case noArgument =>
    intro us p h hp
    rw [parseArguments] at hp
    cases hp
  case closingAngle =>
    intro t ts hkind us p h hp
    rw [parseArguments, if_pos hkind] at hp
    cases hp
    obtain ⟨q, us, rfl, htail⟩ := h.cons
    rw [parseArguments, if_pos hkind]
    exact repeats_ok rfl htail
  case skippedArgument =>
    intro t ts hkind skipped hskipped ih us p h hp
    rw [parseArguments_of_skipped eof hkind hskipped] at hp
    obtain ⟨args, hargs, hp⟩ := exists_of_bind_ok hp
    cases hp
    obtain ⟨q, us, rfl, skipped', hskipped', hleft⟩ :=
      exists_skippedArgument? h hskipped (.inl (ne_nil_of_parseSeparated hargs))
    obtain ⟨args', hargs', hvalue, hrest⟩ :
        Repeats ws args (argumentsBehind eof' [] skipped'.rest) :=
      repeats_parseSeparated hleft hargs (ih (skipped.map fun _ => none))
    rw [parseArguments_of_skipped (t := ⟨t.kind, t.text, q⟩) eof' hkind hskipped']
    exact repeats_bind hargs' (repeats_ok hvalue hrest)
  case typeArgument =>
    intro t ts hkind hskipped ih ihtype us p h hp
    rw [parseArguments_of_type eof hkind hskipped] at hp
    obtain ⟨type, htype, hp⟩ := exists_of_bind_ok hp
    obtain ⟨args, hargs, hp⟩ := exists_of_bind_ok hp
    cases hp
    -- behind the type stands a comma or the closing bracket
    obtain ⟨type', htype', hvalue, hleft⟩ :=
      ihtype us type h htype (.inl (ne_nil_of_parseSeparated hargs))
    obtain ⟨args', hargs', hvalues, hrest⟩ :
        Repeats ws args (argumentsBehind eof' [type'.value] type'.rest) := by
      rw [hvalue]
      exact repeats_parseSeparated hleft hargs (ih (type.map some))
    obtain ⟨q, us, rfl, hskipped'⟩ := skippedArgument?_eq_none h hskipped
    rw [parseArguments_of_type (t := ⟨t.kind, t.text, q⟩) eof' hkind hskipped']
    exact repeats_bind htype' (repeats_bind hargs' (repeats_ok hvalues hrest))
  case noElement =>
    intro comma us p h hp
    rw [parseElements] at hp
    cases hp
  case closingParenthesis =>
    intro comma t ts hkind us p h hp
    rw [parseElements, if_pos hkind] at hp
    cases hp
    obtain ⟨q, us, rfl, htail⟩ := h.cons
    rw [parseElements, if_pos hkind]
    exact repeats_ok rfl htail
  case element =>
    intro comma t ts hkind ihtype ih us p h hp
    rw [parseElements_cons eof hkind] at hp
    obtain ⟨element, helement, hp⟩ := exists_of_bind_ok hp
    obtain ⟨elements, helements, hp⟩ := exists_of_bind_ok hp
    cases hp
    obtain ⟨element', helement', hvalue, hleft⟩ :=
      ihtype us element h helement (.inl (ne_nil_of_parseSeparated helements))
    obtain ⟨elements', helements', hvalues, hrest⟩ :
        Repeats ws elements (elementsBehind eof' element'.value element'.rest) := by
      rw [hvalue]
      exact repeats_parseSeparated hleft helements (ih element)
    obtain ⟨q, us, rfl, -⟩ := h.cons
    rw [parseElements_cons (t := ⟨t.kind, t.text, q⟩) eof' hkind]
    exact repeats_bind helement' (repeats_bind helements' (repeats_ok hvalues hrest))

/-- **A type is read again if the token behind it is known.** -/
theorem repeats_parseType {p : Parsed TypeExpr ts.length} (h : Continues ws ts us)
    (hp : parseType eof ts = .ok p) (hs : Settled ws p.rest) :
    Repeats ws p (parseType eof' us) :=
  (repeats_types eof eof').1 ts us p h hp hs

end Types

end Rust
end Ferrotype

/-
# Literals whose escapes are closed

The only text of a literal that cannot be resolved to the end has a `\u` escape whose brace is
opened and never closed. If every such escape in the text of a token is closed
(`ClosesEscapes`), its literal has a text or one of the other errors
(`literalText_ne_endless`).
-/

import Mathlib.Data.List.Infix
import Ferrotype.Rust.Parse.Basic

namespace Ferrotype
namespace Rust

/-- Every `\u` escape whose brace is opened in a text has a closing brace later in the text. -/
def ClosesEscapes (cs : List Char) : Prop :=
  ∀ before after, cs = before ++ '\\' :: 'u' :: '{' :: after → '}' ∈ after

namespace ClosesEscapes

variable {cs ds : List Char}

/-- What ends a text closes its escapes if the text does. -/
theorem of_suffix (h : ClosesEscapes cs) (hsuffix : ds <:+ cs) : ClosesEscapes ds := by
  rintro before after rfl
  obtain ⟨front, rfl⟩ := hsuffix
  exact h (front ++ before) after (List.append_assoc _ _ _).symm

/-- The closing brace is not the last character if that is a quote. -/
theorem of_append_quote {quote : Char} (hquote : quote ≠ '}') (h : ClosesEscapes (cs ++ [quote])) :
    ClosesEscapes cs := by
  rintro before after rfl
  have hmem := h before (after ++ [quote]) (by simp)
  simpa [hquote.symm] using hmem

/-- Without its quotes a literal closes the same escapes. -/
theorem stripQuotes (h : ClosesEscapes cs) : ClosesEscapes (Escape.stripQuotes cs) := by
  unfold Escape.stripQuotes
  split
  · rename_i quote rest
    split
    · rename_i hstrip
      obtain ⟨hquote, hlast⟩ := hstrip
      obtain ⟨content, rfl⟩ := List.getLast?_eq_some_iff.1 hlast
      have hbrace : quote ≠ '}' := by
        rcases hquote with rfl | rfl <;> decide
      rw [List.dropLast_concat]
      exact of_append_quote hbrace (h.of_suffix (List.suffix_cons _ _))
    · exact h
  · exact h

/-- It is enough to look behind every brace that an escape opens, so it can be decided. -/
theorem iff_forall_tails :
    ClosesEscapes cs ↔ ∀ ds ∈ cs.tails, ['\\', 'u', '{'] <+: ds → '}' ∈ ds.drop 3 := by
  simp only [List.mem_tails]
  constructor
  · rintro h ds ⟨before, rfl⟩ ⟨after, rfl⟩
    exact h before after rfl
  · rintro h before after rfl
    exact h _ (List.suffix_append _ _) ⟨after, rfl⟩

instance : Decidable (ClosesEscapes cs) := decidable_of_iff _ iff_forall_tails.symm

end ClosesEscapes

namespace Escape

/-- What follows an escape in braces is the end of the text. -/
theorem suffix_of_braced {cs rest : List Char} (h : (braced cs).2 = some rest) : rest <:+ cs := by
  unfold braced at h
  split at h
  · cases h
  · rename_i c after hdrop
    cases h
    exact (List.suffix_cons c _).trans (hdrop ▸ List.dropWhile_suffix _)

/-- A brace that is closed has an end. -/
theorem braced_ne_none {cs : List Char} (h : '}' ∈ cs) : (braced cs).2 ≠ none := by
  unfold braced
  split
  · rename_i hdrop
    have htake : cs.takeWhile (· != '}') = cs := by
      simpa [hdrop] using List.takeWhile_append_dropWhile (p := (· != '}')) (l := cs)
    have hall := List.all_takeWhile (p := (· != '}')) (l := cs)
    rw [htake, List.all_eq_true] at hall
    simpa using hall '}' h
  · simp

/-- The digits of an escape can be read to their end. -/
theorem codePoint_ne_endless (digits : List Char) : codePoint digits ≠ .error .endless := by
  fun_cases codePoint digits <;> simp

/-- A change of the result makes nothing endless. -/
theorem map_ne_endless {α β : Type} {x : Except EscapeError α} {f : α → β}
    (h : x ≠ .error .endless) : x.map f ≠ .error .endless := by
  cases x with
  | ok => rintro ⟨⟩
  | error e =>
    intro heq
    cases heq
    exact h rfl

/-- Two steps end if each of them does. -/
theorem bind_ne_endless {α β : Type} {x : Except EscapeError α} {f : α → Except EscapeError β}
    (h : x ≠ .error .endless) (hf : ∀ a, f a ≠ .error .endless) :
    x.bind f ≠ .error .endless := by
  cases x with
  | ok a => exact hf a
  | error e =>
    intro heq
    cases heq
    exact h rfl

/-- A text that closes its escapes is resolved to its end. -/
theorem resolve_ne_endless {cs : List Char} (h : ClosesEscapes cs) :
    resolve cs ≠ .error .endless := by
  fun_induction resolve cs with
  | case1 => rintro ⟨⟩
  | case2 => rintro ⟨⟩
  | case3 e rest c _ ih =>
    exact map_ne_endless (ih (h.of_suffix ⟨['\\', e], rfl⟩))
  | case4 e rest hletter hopen ih =>
    obtain ⟨rfl, hbrace⟩ := hopen
    obtain ⟨digits, rfl⟩ := List.head?_eq_some_iff.1 hbrace
    refine bind_ne_endless (codePoint_ne_endless _) fun c => ?_
    split
    · rename_i after hafter
      refine map_ne_endless (ih after hafter (h.of_suffix ?_))
      exact (suffix_of_braced hafter).trans ⟨['\\', 'u', '{'], rfl⟩
    · rename_i hnone
      exact absurd hnone (braced_ne_none (h [] digits rfl))
  | case5 rest hletter hopen ih =>
    refine bind_ne_endless (codePoint_ne_endless _) fun c => map_ne_endless (ih ?_)
    exact h.of_suffix ((List.drop_suffix 2 rest).trans ⟨['\\', 'x'], rfl⟩)
  | case6 rest _ _ _ ih =>
    refine ih (h.of_suffix ?_)
    exact (List.dropWhile_suffix isLayout).trans ⟨['\\', '\n'], rfl⟩
  | case7 e rest _ _ _ _ ih =>
    exact map_ne_endless (ih (h.of_suffix ⟨['\\', e], rfl⟩))
  | case8 c rest _ _ ih =>
    exact map_ne_endless (ih (h.of_suffix (List.suffix_cons _ _)))

end Escape

/-- A literal that closes its escapes has a text or another error. -/
theorem literalText_ne_endless {t : Token} (h : ClosesEscapes t.text.toList) :
    literalText t ≠ .error (.escape .endless) := by
  have hresolve := Escape.map_ne_endless (f := String.ofList)
    (Escape.resolve_ne_endless h.stripQuotes)
  unfold literalText unquote
  intro heq
  cases hresult : (Escape.resolve (Escape.stripQuotes t.text.toList)).map String.ofList with
  | ok text =>
    rw [hresult] at heq
    cases heq
  | error e =>
    rw [hresult] at heq
    cases heq
    exact hresolve hresult

end Rust
end Ferrotype

/-
# Block comments

A comment of documentation starts with `/**` and ends at the first `*/` behind `/*`. A text is
unclosed if no star in it has a slash right behind it, so it can stand in a comment.

Documentation is put together line by line, so the proof follows the seams: a text passes if it can
stand in front of any unclosed one (`Passes`). A line of documentation passes once something other
than a star or a slash stands behind it, whatever it holds itself.
-/

import Ferrotype.TypeScript.Comment
import Mathlib.Data.List.Chain

namespace Ferrotype
namespace TypeScript

/-! ## Texts that do not close a comment -/

/-- No star has a slash right behind it. -/
def Unclosed (cs : List Char) : Prop := cs.IsChain fun c d => c = '*' → d ≠ '/'

/-- That is to say that the closing delimiter does not occur. -/
theorem unclosed_iff {cs : List Char} : Unclosed cs ↔ ¬ "*/".toList <:+: cs := by
  rw [Unclosed, List.isChain_iff_forall_rel_of_append_cons_cons]
  constructor
  · rintro h ⟨front, rest, hcs⟩
    exact h (by simpa using hcs.symm) rfl rfl
  · rintro h c d front rest rfl rfl rfl
    exact h ⟨front, rest, by simp⟩

/-- Texts that close no comment that goes on with an unclosed text. -/
def Passes (cs : List Char) : Prop := ∀ rest, Unclosed rest → Unclosed (cs ++ rest)

/-- What passes may be followed by what passes. -/
theorem Passes.append {cs ds : List Char} (hcs : Passes cs) (hds : Passes ds) :
    Passes (cs ++ ds) := by
  intro rest hrest
  rw [List.append_assoc]
  exact hcs _ (hds _ hrest)

/-- What passes closes no comment. -/
theorem Passes.unclosed {cs : List Char} (h : Passes cs) : Unclosed cs := by
  have hcs := h [] .nil
  rwa [List.append_nil] at hcs

/-- Only a star needs to look at what follows it. -/
theorem passes_singleton {c : Char} (hc : c ≠ '*') : Passes [c] :=
  fun _ hrest => hrest.cons fun _ _ hstar => absurd hstar hc

/-- A text without stars passes. -/
theorem passes_of_forall {cs : List Char} (h : ∀ c ∈ cs, c ≠ '*') : Passes cs := by
  induction cs with
  | nil => exact fun _ hrest => hrest
  | cons c cs ih =>
    obtain ⟨hc, hcs⟩ := List.forall_mem_cons.1 h
    exact (passes_singleton hc).append (ih hcs)

/-- Blanks pass. -/
theorem passes_spaces (n : Nat) : Passes (Text.spaces n).toList := by
  refine passes_of_forall fun c hc => ?_
  rw [Text.spaces, String.toList_ofList] at hc
  rw [List.eq_of_mem_replicate hc]
  decide

/-- A star that has another character than a slash behind it passes with that character. -/
theorem passes_star {c : Char} (hc : c ≠ '*' ∧ c ≠ '/') : Passes ['*', c] :=
  fun _ hrest => (passes_singleton hc.1 _ hrest).cons fun d hd _ => by
    obtain rfl : c = d := Option.some.inj hd
    exact hc.2

/-! ## Lines of documentation -/

/-- An escaped line starts as the line does. -/
theorem head?_escapeLine (cs : List Char) : (escapeLine cs).head? = cs.head? := by
  fun_cases escapeLine cs <;> rfl

/-- **An escaped line closes no comment**, whatever it holds and whatever its last character is, if
the character behind it is neither a star nor a slash. -/
theorem passes_escapeLine (line : List Char) {c : Char} (hc : c ≠ '*' ∧ c ≠ '/') :
    Passes (escapeLine line ++ [c]) := by
  fun_induction escapeLine line with
  | case1 => exact passes_singleton hc.1
  | case2 cs ih =>
    -- The backslash stands behind the star and in front of the slash.
    have hslash : Passes ['/'] := passes_singleton (by decide)
    exact (passes_star (by decide : '\\' ≠ '*' ∧ '\\' ≠ '/')).append (hslash.append ih)
  | case3 d cs hclosing ih =>
    intro rest hrest
    refine (ih rest hrest).cons ?_
    rintro e he rfl rfl
    rw [List.append_assoc, List.head?_append, head?_escapeLine] at he
    cases cs with
    | nil => exact hc.2 (Option.some.inj he)
    | cons e es =>
      obtain rfl : e = '/' := Option.some.inj he
      exact hclosing es rfl rfl

/-- A line of a comment passes in front of anything but a star or a slash. -/
theorem passes_commentLine (line : String) {c : Char} (hc : c ≠ '*' ∧ c ≠ '/') :
    Passes ((commentLine line).toList ++ [c]) := by
  rw [commentLine, String.toList_ofList]
  exact passes_escapeLine line.toList hc

/-- A line of a block passes. -/
theorem passes_blockLine (line : String) : Passes (blockLine line).toList := by
  have hblank : Passes [' '] := passes_singleton (by decide)
  unfold blockLine
  split
  · exact hblank.append (passes_star (by decide : '\n' ≠ '*' ∧ '\n' ≠ '/'))
  · rw [String.toList_append, String.toList_append, List.append_assoc]
    exact (hblank.append (passes_star (by decide : ' ' ≠ '*' ∧ ' ' ≠ '/'))).append
      (passes_commentLine line (by decide))

/-- Texts that pass do so one behind the other. -/
theorem passes_concat {α : Type} {write : α → String} (h : ∀ a, Passes (write a).toList)
    (as : List α) : Passes (Text.concat (as.map write)).toList := by
  induction as with
  | nil => exact fun _ hrest => hrest
  | cons a as ih =>
    rw [List.map_cons, Text.concat_cons, String.toList_append]
    exact (h a).append ih

/-! ## Documentation -/

/-- A text that is one block comment on lines of its own, behind some blanks: `/**`, a content in
which the comment does not end, then `*/` and a line feed. -/
def IsBlockComment (blanks : Nat) (text : String) : Prop :=
  ∃ content : List Char,
    text.toList = (Text.spaces blanks).toList ++
      ("/**".toList ++ (content ++ "*/\n".toList)) ∧
    ¬ "*/".toList <:+: '*' :: content

/-- A comment is known by its content, which starts with a blank or a line feed. -/
theorem isBlockComment_of_passes {blanks : Nat} {text : String} (c : Char) (content : List Char)
    (htext : text.toList = (Text.spaces blanks).toList ++
      ("/**".toList ++ (c :: content ++ "*/\n".toList)))
    (hc : c ≠ '*' ∧ c ≠ '/') (hcontent : Passes content) : IsBlockComment blanks text :=
  ⟨c :: content, htext, unclosed_iff.1 ((passes_star hc).append hcontent).unclosed⟩

/-- **Documentation is one block comment**, whatever its lines hold. -/
theorem isBlockComment_renderComment (blanks : Nat) (line : String) (lines : List String) :
    IsBlockComment blanks (renderComment blanks (line :: lines)) := by
  cases lines with
  | nil =>
    refine isBlockComment_of_passes ' ' ((commentLine line).toList ++ [' ']) ?_ (by decide)
      (passes_commentLine line (by decide))
    simp [renderComment]
  | cons next lines =>
    have hline (text : String) : Passes (Text.spaces blanks ++ blockLine text).toList := by
      rw [String.toList_append]
      exact (passes_spaces blanks).append (passes_blockLine text)
    refine isBlockComment_of_passes '\n'
      ((Text.concat ((line :: next :: lines).map fun text =>
        Text.spaces blanks ++ blockLine text)).toList ++
          ((Text.spaces blanks).toList ++ [' '])) ?_ (by decide)
      ((passes_concat hline _).append ((passes_spaces blanks).append
        (passes_singleton (by decide))))
    simp [renderComment]

end TypeScript
end Ferrotype

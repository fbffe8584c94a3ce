/-
# The tokens of a source behind a position

`ofSource p cs` are the tokens of a text that starts at a position. They are those of its first
lexeme and then those of the rest, which starts at the position behind the lexeme
(`tokens_ofSource`): only the last lexeme of a source can run over its end. Layout in front of a
text moves the position and gives nothing (`ofSource_layout`).
-/

import Ferrotype.Proofs.Rust.Tokenize.Remark
import Ferrotype.Proofs.Rust.Walk.Lexeme

namespace Ferrotype
namespace Rust

namespace Lexeme

/-! ## Lexemes that run over the end -/

/-- Whether a reader lets a lexeme run over the end of a text only where the text ends. -/
def EndsOverrun (reader : Reader) : Prop :=
  ∀ {cs lexeme rest}, reader cs = some (lexeme, rest) → lexeme.overruns → rest = []

/-- A raw literal runs over the end only if nothing follows. -/
theorem rest_rawBehind {letters cs : List Char} (h : (rawBehind letters cs).1.overruns) :
    (rawBehind letters cs).2 = [] := by
  have hempty : (run (· == '#') cs).2 = [] := List.isEmpty_iff.1 h
  simp [rawBehind, hempty, rawTail]

/-- A literal runs over the end only if nothing follows. -/
theorem rest_quotedBehind {kind : Kind} {letters cs : List Char} {quote : Char}
    (h : (quotedBehind kind letters quote cs).1.overruns) :
    (quotedBehind kind letters quote cs).2 = [] := by
  obtain hclosing | ⟨-, hrest⟩ := Walk.quotedTail_closing quote cs
  · simp [quotedBehind, hclosing] at h
  · exact hrest

/-- No reader leaves anything behind a lexeme that runs over the end. -/
theorem endsOverrun_of_mem_readers {reader : Reader} (h : reader ∈ readers) :
    EndsOverrun reader := by
  simp only [readers, List.mem_cons, List.not_mem_nil, or_false] at h
  rcases h with rfl | rfl | rfl | rfl | rfl | rfl | rfl | rfl | rfl | rfl | rfl | rfl <;>
    intro cs lexeme rest
  · fun_cases layout? cs <;> rintro ⟨⟩ ⟨⟩
  · fun_cases lineComment? cs <;> rintro ⟨⟩ ⟨⟩
  · fun_cases blockComment? cs <;> rintro ⟨⟩ ⟨⟩
  · fun_cases rawString? cs <;> intro h hover <;> cases h
    all_goals exact rest_rawBehind hover
  · fun_cases bytes? cs <;> intro h hover <;> cases h
    all_goals exact rest_quotedBehind hover
  · fun_cases rawWord? cs <;> rintro ⟨⟩ ⟨⟩
  · fun_cases string? cs <;> intro h hover <;> cases h
    exact rest_quotedBehind hover
  · fun_cases single? cs <;> intro h hover <;> cases h
    · exact rest_quotedBehind hover
    · cases hover
  · fun_cases number? cs <;> rintro ⟨⟩ ⟨⟩
  · fun_cases word? cs <;> rintro ⟨⟩ ⟨⟩
  · fun_cases pair? cs with
    | case1 c d cs =>
      intro h hover
      obtain ⟨kind, -, heq⟩ := Option.map_eq_some_iff.1 h
      cases heq
      cases hover
    | case2 => rintro ⟨⟩
  · fun_cases mark? cs <;> rintro ⟨⟩ ⟨⟩

/-- Nothing follows a lexeme that runs over the end. -/
theorem rest_of_overruns {cs rest : List Char} {lexeme : Lexeme}
    (h : first? cs = some (lexeme, rest)) (hover : lexeme.overruns) : rest = [] := by
  obtain ⟨reader, hmem, hreader⟩ := List.exists_of_findSome?_eq_some h
  exact endsOverrun_of_mem_readers hmem hreader hover

/-- A lexeme with more behind it ends where its text ends. -/
theorem finish_eq_after {cs rest : List Char} {lexeme : Lexeme}
    (h : first? cs = some (lexeme, rest)) (hrest : rest ≠ []) (p : Position) :
    lexeme.finish p = p.after lexeme.text :=
  if_neg fun hover => hrest (rest_of_overruns h hover)

end Lexeme

namespace TokenStream

/-! ## Sources -/

/-- The tokens of a text that starts at a position. -/
def ofSource (p : Position) (cs : List Char) : TokenStream := ofLexemes p (lexemes cs)

@[simp] theorem ofSource_nil (p : Position) : ofSource p [] = ⟨[], p⟩ := by
  rw [ofSource, lexemes_nil]
  rfl

/-- The tokens of a source by its first lexeme, with the place of its end. -/
theorem ofSource_of_first? {cs rest : List Char} {lexeme : Lexeme}
    (h : Lexeme.first? cs = some (lexeme, rest)) (p : Position) :
    ofSource p cs = ⟨lexeme.tokens p ++ (ofSource (lexeme.finish p) rest).tokens,
      (ofSource (lexeme.finish p) rest).finish⟩ := by
  rw [ofSource, lexemes_of_first? h]
  rfl

/-- **The tokens of a source are those of its first lexeme and then those of the rest.** -/
theorem tokens_ofSource {cs rest : List Char} {lexeme : Lexeme}
    (h : Lexeme.first? cs = some (lexeme, rest)) (p : Position) :
    (ofSource p cs).tokens =
      lexeme.tokens p ++ (ofSource (p.after lexeme.text) rest).tokens := by
  rw [ofSource_of_first? h]
  by_cases hrest : rest = []
  · subst hrest
    simp
  · rw [Lexeme.finish_eq_after h hrest]

/-- The tokens of the first lexemes of a source, and then those of the others. -/
theorem tokens_ofSource_append {cs : List Char} {before after : List Lexeme}
    (h : lexemes cs = before ++ after) (p : Position) :
    (ofSource p cs).tokens = (ofLexemes p before).tokens ++
      (ofSource (p.after (before.flatMap (·.text))) (after.flatMap (·.text))).tokens := by
  induction before generalizing cs p with
  | nil =>
    have hcs := flatMap_text_lexemes cs
    rw [h, List.nil_append] at hcs
    rw [hcs]
    rfl
  | cons lexeme before ih =>
    obtain ⟨rest, hfirst, hrest⟩ := exists_of_lexemes_eq_cons h
    have hbefore : (ofLexemes (p.after lexeme.text) before).tokens =
        (ofLexemes (lexeme.finish p) before).tokens := by
      by_cases hnil : rest = []
      · rw [hnil, lexemes_nil] at hrest
        rw [(List.append_eq_nil_iff.1 hrest.symm).1]
        rfl
      · rw [Lexeme.finish_eq_after hfirst hnil]
    rw [tokens_ofSource hfirst, ih hrest, hbefore, List.flatMap_cons, Position.after_append,
      ← List.append_assoc]
    rfl

/-- Layout in front of a source moves its position. -/
theorem ofSource_layout {c : Char} (hc : Lexeme.isLayout c) (p : Position) (cs : List Char) :
    ofSource p (c :: cs) = ofSource (p.next c) cs := by
  have htext {d : Char} (hd : Lexeme.isLayout d) (q : Position) (ds : List Char) :
      ofSource q (d :: ds) = ofSource (q.after (d :: ds.takeWhile Lexeme.isLayout))
        (ds.dropWhile Lexeme.isLayout) := by
    rw [ofSource_of_first? (first?_of_isLayout hd ds)]
    rfl
  rw [htext hc, Position.after_cons]
  cases cs with
  | nil => rfl
  | cons d ds =>
    by_cases hd : Lexeme.isLayout d
    · rw [htext hd, List.takeWhile_cons_of_pos hd, List.dropWhile_cons_of_pos hd]
    · rw [List.takeWhile_cons_of_neg hd, List.dropWhile_cons_of_neg hd]
      rfl

end TokenStream

end Rust
end Ferrotype

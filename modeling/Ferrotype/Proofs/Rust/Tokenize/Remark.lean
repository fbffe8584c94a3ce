/-
# Remarks leave no trace

A remark is an ordinary comment with blanks around it. Put in before a lexeme that is no layout and
no comment itself, it changes no token, only positions: what stands before the lexeme is read again,
the remark gives nothing, and the lexeme and what follows it are read as before.

The exception is a character literal of two quotes. It is one only because of the quote that follows
it, so with a remark between them the two quotes are two lifetimes (`pieces_insert_iff`).
-/

import Ferrotype.Proofs.Rust.Tokenize.Again

namespace Ferrotype
namespace Rust

open Lexeme (Parted)

/-! ## Remarks -/

/-- An ordinary comment with blanks around it: one between delimiters that holds neither of them, or
one that ends with its line. -/
inductive Remark : List Char → Prop
  | block {content : List Char} (hopen : ¬ ['/', '*'] <:+: content)
      (hclose : ¬ ['*', '/'] <:+: content) :
      Remark (" /* ".toList ++ content ++ " */ ".toList)
  | line {content : List Char} (hcontent : '\n' ∉ content) :
      Remark (" // ".toList ++ content ++ ['\n'])

/-- A remark starts with a blank and a slash. -/
theorem Remark.exists_cons {remark : List Char} (h : Remark remark) :
    ∃ tail, remark = ' ' :: '/' :: tail := by
  cases h <;> exact ⟨_, rfl⟩

/-- A character that starts no delimiter is part of a comment. -/
theorem blockTail_cons {c : Char} (hslash : c ≠ '/') (hstar : c ≠ '*') (depth : Nat)
    (cs : List Char) :
    Lexeme.blockTail depth (c :: cs) = (Lexeme.blockTail depth cs).after [c] :=
  Lexeme.blockTail.eq_5 depth c cs (fun _ hc => absurd hc hslash) (fun _ _ hc => absurd hc hstar)
    fun _ _ _ hc => absurd hc hstar

/-- Two characters that do not stand next to each other in a text do not do so in front of a
blank. -/
theorem not_cons_of_not_infix {c d : Char} {content : List Char} (hd : d ≠ ' ')
    (h : ¬ [c, d] <:+: c :: content) (cs tail : List Char) : content ++ ' ' :: cs ≠ d :: tail := by
  rintro heq
  cases content with
  | nil => exact hd (List.cons.inj heq).1.symm
  | cons e content =>
    obtain rfl : e = d := (List.cons.inj heq).1
    exact h ⟨[], content, rfl⟩

/-- A comment without delimiters inside it ends with the first one behind it. -/
theorem blockTail_of_plain {content : List Char} (hopen : ¬ ['/', '*'] <:+: content)
    (hclose : ¬ ['*', '/'] <:+: content) (cs : List Char) :
    Lexeme.blockTail 0 (content ++ ' ' :: '*' :: '/' :: cs) =
      ⟨content ++ [' '], ['*', '/'], cs⟩ := by
  induction content with
  | nil =>
    rw [List.nil_append, blockTail_cons (by decide) (by decide), Lexeme.blockTail]
    rfl
  | cons c content ih =>
    have hrest := ih (fun h => hopen (h.trans (List.suffix_cons c content).isInfix))
      (fun h => hclose (h.trans (List.suffix_cons c content).isInfix))
    rw [List.cons_append, Lexeme.blockTail.eq_5, hrest]
    · rfl
    · rintro tail rfl
      exact not_cons_of_not_infix (by decide) hopen _ tail
    · rintro tail - rfl
      exact not_cons_of_not_infix (by decide) hclose _ tail
    · rintro _ tail - rfl
      exact not_cons_of_not_infix (by decide) hclose _ tail

/-- A lexeme that gives no tokens. -/
theorem pieces_lexemes_blank {cs text rest : List Char}
    (h : Lexeme.first? cs = some (.whole .blank text, rest)) :
    (lexemes cs).flatMap Lexeme.pieces = (lexemes rest).flatMap Lexeme.pieces := by
  rw [lexemes_of_first? h, List.flatMap_cons]
  rfl

/-- Two slashes open a comment before anything else. -/
theorem first?_of_lineComment? {cs : List Char} {r : Lexeme × List Char}
    (h : Lexeme.lineComment? ('/' :: '/' :: cs) = some r) :
    Lexeme.first? ('/' :: '/' :: cs) = some r := by
  have hlayout : Lexeme.layout? ('/' :: '/' :: cs) = none := rfl
  simp only [Lexeme.first?, Lexeme.readers, List.findSome?_cons, hlayout, h]

/-- So do a slash and a star. -/
theorem first?_of_blockComment? {cs : List Char} {r : Lexeme × List Char}
    (h : Lexeme.blockComment? ('/' :: '*' :: cs) = some r) :
    Lexeme.first? ('/' :: '*' :: cs) = some r := by
  have hlayout : Lexeme.layout? ('/' :: '*' :: cs) = none := rfl
  have hline : Lexeme.lineComment? ('/' :: '*' :: cs) = none := rfl
  simp only [Lexeme.first?, Lexeme.readers, List.findSome?_cons, hlayout, hline, h]

/-- A quote opens a character or a lifetime before anything else. -/
theorem first?_of_single? {cs : List Char} {r : Lexeme × List Char}
    (h : Lexeme.single? ('\'' :: cs) = some r) : Lexeme.first? ('\'' :: cs) = some r := by
  have hlayout : Lexeme.layout? ('\'' :: cs) = none := rfl
  have hline : Lexeme.lineComment? ('\'' :: cs) = none := rfl
  have hblock : Lexeme.blockComment? ('\'' :: cs) = none := rfl
  have hraw : Lexeme.rawString? ('\'' :: cs) = none := rfl
  have hbytes : Lexeme.bytes? ('\'' :: cs) = none := rfl
  have hword : Lexeme.rawWord? ('\'' :: cs) = none := rfl
  have hstring : Lexeme.string? ('\'' :: cs) = none := rfl
  simp only [Lexeme.first?, Lexeme.readers, List.findSome?_cons, hlayout, hline, hblock, hraw,
    hbytes, hword, hstring, h]

/-- A remark gives no tokens. -/
theorem pieces_lexemes_remark {remark : List Char} (h : Remark remark) (cs : List Char) :
    (lexemes (remark ++ cs)).flatMap Lexeme.pieces = (lexemes cs).flatMap Lexeme.pieces := by
  cases h with
  | @block content hopen hclose =>
    have hbody := blockTail_of_plain hopen hclose (' ' :: cs)
    have hcomment : Lexeme.first?
        ('/' :: '*' :: ' ' :: (content ++ ' ' :: '*' :: '/' :: ' ' :: cs)) =
          some (.whole .blank ('/' :: '*' :: ' ' :: (content ++ [' ', '*', '/'])), ' ' :: cs) := by
      have hread : Lexeme.blockComment?
          ('/' :: '*' :: ' ' :: (content ++ ' ' :: '*' :: '/' :: ' ' :: cs)) =
            some (.whole .blank ('/' :: '*' :: ' ' :: (content ++ [' ', '*', '/'])), ' ' :: cs) := by
        rw [Lexeme.blockComment?, if_neg (by simp [Lexeme.opensBlockDoc]),
          blockTail_cons (by decide) (by decide), hbody]
        simp [Lexeme.Enclosed.text, Lexeme.Enclosed.after]
      rw [first?_of_blockComment? hread]
    have htext : " /* ".toList ++ content ++ " */ ".toList ++ cs =
        ' ' :: '/' :: '*' :: ' ' :: (content ++ ' ' :: '*' :: '/' :: ' ' :: cs) := by
      simp
    rw [htext, pieces_lexemes_layout rfl, pieces_lexemes_blank hcomment, pieces_lexemes_layout rfl]
  | @line content hcontent =>
    have hcomment : Lexeme.first? ('/' :: '/' :: ' ' :: (content ++ '\n' :: cs)) =
        some (.whole .blank ('/' :: '/' :: ' ' :: content), '\n' :: cs) := by
      have hblank : '\n' ∉ ' ' :: content := by simpa using hcontent
      have hread := Lexeme.lineComment?_of_newline hblank cs
      rw [List.cons_append] at hread
      rw [first?_of_lineComment? hread]
      rfl
    have htext : " // ".toList ++ content ++ ['\n'] ++ cs =
        ' ' :: '/' :: '/' :: ' ' :: (content ++ '\n' :: cs) := by
      simp
    rw [htext, pieces_lexemes_layout rfl, pieces_lexemes_blank hcomment, pieces_lexemes_layout rfl]

/-! ## Lexemes with a remark before them -/

/-- The first of the lexemes of a text is the one that is read first. -/
theorem exists_of_lexemes_eq_cons {cs : List Char} {lexeme : Lexeme} {ls : List Lexeme}
    (h : lexemes cs = lexeme :: ls) :
    ∃ rest, Lexeme.first? cs = some (lexeme, rest) ∧ lexemes rest = ls := by
  cases hfirst : Lexeme.first? cs with
  | none =>
    rw [Lexeme.first?_eq_none_iff.1 hfirst, lexemes_nil] at h
    cases h
  | some r =>
    rw [lexemes_of_first? hfirst] at h
    obtain ⟨rfl, rfl⟩ := List.cons.inj h
    exact ⟨r.2, rfl, rfl⟩

/-- The texts of the last lexemes are cut into these again. -/
theorem lexemes_flatMap_text {cs : List Char} {before ls : List Lexeme}
    (h : lexemes cs = before ++ ls) : lexemes (ls.flatMap (·.text)) = ls := by
  induction before generalizing cs with
  | nil =>
    have hcs := flatMap_text_lexemes cs
    rw [h, List.nil_append] at hcs
    rw [hcs, h, List.nil_append]
  | cons first before ih =>
    obtain ⟨rest, -, hrest⟩ := exists_of_lexemes_eq_cons h
    exact ih hrest

/-- A lexeme that is no layout starts with no layout. -/
theorem isLayout_head?_of_shape {cs rest : List Char} {lexeme : Lexeme}
    (h : Lexeme.first? cs = some (lexeme, rest)) (hshape : lexeme.shape ≠ .blank) :
    ∃ c tail, cs = c :: tail ∧ Lexeme.isLayout c = false := by
  cases cs with
  | nil => cases h
  | cons c tail =>
    refine ⟨c, tail, rfl, Bool.eq_false_iff.2 fun hc => ?_⟩
    rw [first?_of_isLayout hc] at h
    cases h
    exact hshape rfl

/-- Two quotes that are one lexeme are a character literal. -/
theorem pieces_of_two_quotes {cs rest : List Char} {lexeme : Lexeme}
    (h : Lexeme.first? cs = some (lexeme, rest)) (hquotes : lexeme.text = ['\'', '\'']) :
    lexeme.pieces = [⟨.char, "''"⟩] := by
  have happend := Lexeme.text_append_of_first? h
  rw [hquotes] at happend
  subst happend
  rw [List.cons_append, List.singleton_append] at h
  by_cases hopens : Lexeme.opensChar ('\'' :: rest)
  · rw [first?_of_single? (by rw [Lexeme.single?, if_pos hopens])] at h
    cases h
    rfl
  · have hword : Lexeme.run Unicode.isWordChar ('\'' :: rest) = ([], '\'' :: rest) := by
      have hquote : ¬ Unicode.isWordChar '\'' := by decide
      rw [Lexeme.run, List.takeWhile_cons_of_neg hquote, List.dropWhile_cons_of_neg hquote]
    rw [first?_of_single? (by rw [Lexeme.single?, if_neg hopens, hword])] at h
    cases h

/-- With a blank behind them, two quotes are two lifetimes. -/
theorem pieces_lexemes_two_quotes (cs : List Char) :
    ∃ ps, (lexemes ('\'' :: '\'' :: ' ' :: cs)).flatMap Lexeme.pieces = ⟨.lifetime, "'"⟩ :: ps := by
  have hquote : ¬ Unicode.isWordChar '\'' := by decide
  have hread : Lexeme.single? ('\'' :: '\'' :: ' ' :: cs) =
      some (.whole (.token .lifetime ['\'']) ['\''], '\'' :: ' ' :: cs) := by
    rw [Lexeme.single?, if_neg (by simp [Lexeme.opensChar_cons_cons])]
    simp only [Lexeme.run, List.takeWhile_cons_of_neg hquote, List.dropWhile_cons_of_neg hquote]
  exact ⟨_, by rw [lexemes_of_first? (first?_of_single? hread), List.flatMap_cons]; rfl⟩

/-- What holds of the last element behind another one. -/
theorem forall_getLast?_cons_iff {α : Type} {p : α → Prop} {x : α} {xs : List α}
    (h : xs = [] → p x) : (∀ last ∈ (x :: xs).getLast?, p last) ↔ ∀ last ∈ xs.getLast?, p last := by
  cases xs with
  | nil => simpa using h rfl
  | cons y ys => rw [List.getLast?_cons_cons]

/-- **A remark before a lexeme changes the tokens exactly if two quotes stand before it**, as one
lexeme. -/
theorem pieces_insert_iff {cs : List Char} {before after : List Lexeme} {lexeme : Lexeme}
    (h : lexemes cs = before ++ lexeme :: after) (hshape : lexeme.shape ≠ .blank)
    {remark : List Char} (hremark : Remark remark) :
    (lexemes (before.flatMap (·.text) ++ remark ++
        (lexeme :: after).flatMap (·.text))).flatMap Lexeme.pieces =
      (lexemes cs).flatMap Lexeme.pieces ↔
    ∀ last ∈ before.getLast?, last.text ≠ ['\'', '\''] := by
  obtain ⟨tail, rfl⟩ := hremark.exists_cons
  obtain ⟨_, hlexeme, -⟩ := exists_of_lexemes_eq_cons (lexemes_flatMap_text h)
  obtain ⟨c, post, hpost, hc⟩ := isLayout_head?_of_shape hlexeme hshape
  induction before generalizing cs with
  | nil =>
    have hcs := flatMap_text_lexemes cs
    rw [h] at hcs
    rw [List.flatMap_nil, List.nil_append, pieces_lexemes_remark hremark, ← hcs]
    simp
  | cons first before ih =>
    rw [List.cons_append] at h
    obtain ⟨rest, hfirst, hrest⟩ := exists_of_lexemes_eq_cons h
    have hih := ih hrest
    have hsplit : before.flatMap (·.text) ++ c :: post = rest := by
      rw [← hpost, ← List.flatMap_append, ← hrest, flatMap_text_lexemes]
    rw [hpost] at hih ⊢
    have hparted : Parted rest (before.flatMap (·.text) ++ (' ' :: '/' :: tail) ++ c :: post) := by
      rw [← hsplit, List.append_assoc]
      exact (Parted.here hc post (tail ++ c :: post)).append _
    have hnew : (first :: before).flatMap (·.text) ++ (' ' :: '/' :: tail) ++ c :: post =
        first.text ++ (before.flatMap (·.text) ++ (' ' :: '/' :: tail) ++ c :: post) := by
      simp
    rw [hnew, lexemes_of_first? hfirst, List.flatMap_cons]
    obtain ⟨d, ds, rfl⟩ : ∃ d ds, cs = d :: ds := by
      cases cs with
      | nil => cases hfirst
      | cons d ds => exact ⟨d, ds, rfl⟩
    by_cases hd : Lexeme.isLayout d
    · -- Layout gives nothing, whatever follows it.
      rw [first?_of_isLayout hd] at hfirst
      cases hfirst
      have hlayout : ∀ x ∈ d :: ds.takeWhile Lexeme.isLayout, Lexeme.isLayout x :=
        List.forall_mem_cons.2 ⟨hd, fun _ => List.mem_takeWhile_imp⟩
      rw [Lexeme.text_whole, pieces_lexemes_layouts hlayout]
      refine hih.trans (forall_getLast?_cons_iff fun _ heq => ?_).symm
      rw [(List.cons.inj heq).1] at hd
      cases hd
    by_cases hquotes : before = [] ∧ first.text = ['\'', '\'']
    · -- The two quotes become two lifetimes.
      obtain ⟨rfl, htext⟩ := hquotes
      obtain ⟨ps, hps⟩ := pieces_lexemes_two_quotes ('/' :: tail ++ c :: post)
      rw [pieces_of_two_quotes hfirst htext, htext]
      refine iff_of_false (fun heq => ?_) fun hlast => hlast first rfl htext
      cases hps.symm.trans heq
    · have hread := Lexeme.first?_parted hfirst (by simpa using hd) (fun htext => ?_) hparted
      · rw [lexemes_of_first? hread, List.flatMap_cons, List.append_cancel_left_eq]
        exact hih.trans (forall_getLast?_cons_iff fun hnil htext => hquotes ⟨hnil, htext⟩).symm
      · cases before with
        | nil => exact absurd ⟨rfl, htext⟩ hquotes
        | cons next before =>
          obtain ⟨_, hnext, -⟩ := exists_of_lexemes_eq_cons hrest
          obtain ⟨e, text, he⟩ := List.exists_cons_of_ne_nil (Lexeme.first?_faithful hnext).2
          rw [← hsplit, List.flatMap_cons, he]
          rfl

end Rust
end Ferrotype

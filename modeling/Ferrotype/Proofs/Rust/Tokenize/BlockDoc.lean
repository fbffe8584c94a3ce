/-
# Blocks of documentation

A documentation comment in block form is cut into its lines. A blank first line and a blank last one
are left out, and each other line gives a token with its text.

The numbers of the tokens count the lines that are left from the line of the opening delimiter on.
So they are the numbers of the lines in the source if the first line stands; behind a first line
that is left out each number is one less (`tokens_blockDoc`).
-/

import Ferrotype.Proofs.Rust.Tokenize.CommentBody
import Ferrotype.Proofs.Rust.Tokenize.Stream

namespace Ferrotype
namespace Rust

/-! ## Lines -/

/-- Whether the first of several lines is blank. -/
def opensBlank (content : List Char) : Prop :=
  ∃ first next lines, Text.splitAt '\n' content = first :: next :: lines ∧ isBlankLine first

/-- The lines of a block, each with the number of line feeds before it. Of several lines a blank
first one and a blank last one do not count. -/
def shownLines (content : List Char) : List (List Char × Nat) :=
  let lines := Text.splitAt '\n' content
  lines.zipIdx.filter fun (line, i) =>
    lines.length = 1 ∨ ¬ (isBlankLine line ∧ (i = 0 ∨ i + 1 = lines.length))

/-- The token of a line of a block that starts at a position, on the line where it stands. -/
def lineToken (p : Position) (line : List Char × Nat) : Token :=
  ⟨.doc, String.ofList (blockDocText line.1), ⟨p.line + line.2, p.column⟩⟩

/-- The lines of a text of several lines, cut at the first and the last one. -/
theorem dropBlankLast (lines : List (List Char)) (last : List Char) :
    (dropBlankFirst (lines ++ [last]).reverse).reverse =
      if lines ≠ [] ∧ isBlankLine last then lines else lines ++ [last] := by
  rw [List.reverse_append, List.reverse_singleton, List.singleton_append]
  cases hlines : lines.reverse with
  | nil => simp [List.reverse_eq_nil_iff.1 hlines, dropBlankFirst]
  | cons line more =>
    have hne : lines ≠ [] := by
      rintro rfl
      cases hlines
    have hback : (line :: more).reverse = lines := by rw [← hlines, List.reverse_reverse]
    rw [dropBlankFirst]
    split
    · rename_i hblank
      rw [if_pos ⟨hne, hblank⟩, hback]
    · rename_i hblank
      rw [if_neg fun h => hblank h.2, List.reverse_cons, hback]

/-- The only line is shown. -/
theorem shownLines_single {content line : List Char} (h : Text.splitAt '\n' content = [line]) :
    shownLines content = [(line, 0)] := by
  simp [shownLines, h]

/-- Of several lines those in the middle are shown, and the first and the last one if they are not
blank. -/
theorem shownLines_several {content first last : List Char} {middle : List (List Char)}
    (h : Text.splitAt '\n' content = first :: (middle ++ [last])) :
    shownLines content = (if isBlankLine first then [] else [(first, 0)]) ++ middle.zipIdx 1 ++
      if isBlankLine last then [] else [(last, middle.length + 1)] := by
  have hmiddle : ∀ line ∈ middle.zipIdx 1, ¬ (line.2 = 0 ∨ line.2 + 1 = middle.length + 2) := by
    rintro ⟨line, i⟩ hmem
    have hlow := List.le_snd_of_mem_zipIdx hmem
    have hhigh := List.snd_lt_add_of_mem_zipIdx hmem
    simp only
    omega
  have hall : (middle.zipIdx 1).filter (fun (line, i) =>
      decide (middle.length + 2 = 1 ∨ ¬ (isBlankLine line ∧ (i = 0 ∨ i + 1 = middle.length + 2)))) =
        middle.zipIdx 1 :=
    List.filter_eq_self.2 fun line hmem =>
      decide_eq_true (.inr fun hends => hmiddle line hmem hends.2)
  have hlength : (first :: (middle ++ [last])).length = middle.length + 2 := by simp
  simp only [shownLines, h, hlength]
  rw [List.zipIdx_cons, List.zipIdx_append, List.filter_cons, List.filter_append, Nat.zero_add, hall]
  cases hfirst : isBlankLine first <;> cases hlast : isBlankLine last <;>
    simp [hlast, Nat.add_comm]

/-- The only line of a block is kept, blank or not. -/
theorem blockDocLines_single {content line : List Char}
    (h : Text.splitAt '\n' content = [line]) : blockDocLines content = [line] := by
  rw [blockDocLines, h]
  rfl

/-- Of several lines a blank first one is dropped, and a blank last one unless it is the only one
left. -/
theorem blockDocLines_several {content first last : List Char} {middle : List (List Char)}
    (h : Text.splitAt '\n' content = first :: (middle ++ [last])) :
    blockDocLines content =
      if isBlankLine first then
        if middle ≠ [] ∧ isBlankLine last then middle else middle ++ [last]
      else first :: if isBlankLine last then middle else middle ++ [last] := by
  obtain ⟨next, more, hnext⟩ :=
    List.exists_cons_of_ne_nil (List.append_ne_nil_of_right_ne_nil middle (List.cons_ne_nil last []))
  rw [blockDocLines, h, hnext, dropBlankFirst]
  split
  · rw [← hnext, dropBlankLast]
  · rw [← hnext, ← List.cons_append, dropBlankLast]
    split <;> simp_all

/-- The lines of a text are one line, or a first and a last one with others between them. -/
theorem splitAt_cases (content : List Char) :
    (∃ line, Text.splitAt '\n' content = [line]) ∨
      ∃ first middle last, Text.splitAt '\n' content = first :: (middle ++ [last]) := by
  cases h : Text.splitAt '\n' content with
  | nil => exact absurd h (Text.splitAt_ne_nil _ _)
  | cons first lines =>
    rcases List.eq_nil_or_concat lines with rfl | ⟨middle, last, rfl⟩
    · exact .inl ⟨first, rfl⟩
    · exact .inr ⟨first, middle, last, by rw [List.concat_eq_append]⟩

/-- A block opens with a blank line if the first of several is blank. -/
theorem opensBlank_several {content first last : List Char} {middle : List (List Char)}
    (h : Text.splitAt '\n' content = first :: (middle ++ [last])) :
    opensBlank content ↔ isBlankLine first := by
  obtain ⟨next, more, hnext⟩ :=
    List.exists_cons_of_ne_nil (List.append_ne_nil_of_right_ne_nil middle (List.cons_ne_nil last []))
  rw [hnext] at h
  constructor
  · rintro ⟨_, _, _, heq, hblank⟩
    rw [h, List.cons.injEq] at heq
    rwa [heq.1]
  · exact fun hblank => ⟨first, next, more, h, hblank⟩

/-! ## Tokens -/

/-- A blank line has no text. -/
theorem blockDocText_of_isBlankLine {line : List Char} (h : isBlankLine line) :
    blockDocText line = [] := by
  have htrim : Unicode.trim line = [] := by
    have hall : ∀ c ∈ line, Unicode.isBlank c := List.all_eq_true.1 h
    have hstart : Unicode.trimStart line = [] := List.dropWhile_eq_nil_iff.2 hall
    rw [Unicode.trim, hstart]
    rfl
  rw [blockDocText, htrim]
  simp only
  split
  · rfl
  · rfl

/-- The tokens of a block at a position. -/
def blockTokens (p : Position) (content : List Char) : List Token :=
  (blockDocLines content).zipIdx.map (lineToken p)

/-- Where the first line stands, each token is on the line where its text is. -/
theorem blockTokens_of_not_opensBlank {content : List Char} (h : ¬ opensBlank content)
    (p : Position) : blockTokens p content = (shownLines content).map (lineToken p) := by
  obtain ⟨line, hline⟩ | ⟨first, middle, last, hlines⟩ := splitAt_cases content
  · rw [blockTokens, blockDocLines_single hline, shownLines_single hline]
    rfl
  · rw [opensBlank_several hlines] at h
    rw [blockTokens, blockDocLines_several hlines, shownLines_several hlines, if_neg h, if_neg h]
    split <;> simp [List.zipIdx_append, Nat.add_comm]

/-- Lines counted from one are those counted from zero, one later. -/
theorem map_zipIdx_one (p : Position) (lines : List (List Char)) :
    (lines.zipIdx 1).map (fun line => lineToken p (line.1, line.2 - 1)) =
      lines.zipIdx.map (lineToken p) := by
  rw [List.zipIdx_succ]
  simp [Function.comp_def]

/-- Behind a blank first line each token is on the line before that of its text. A block of two
blank lines has one token. -/
theorem blockTokens_of_opensBlank {content : List Char} (h : opensBlank content) (p : Position) :
    blockTokens p content = if shownLines content = [] then [⟨.doc, "", p⟩] else
      (shownLines content).map fun line => lineToken p (line.1, line.2 - 1) := by
  obtain ⟨line, hline⟩ | ⟨first, middle, last, hlines⟩ := splitAt_cases content
  · obtain ⟨_, _, _, heq, -⟩ := h
    cases hline.symm.trans heq
  · rw [opensBlank_several hlines] at h
    rw [blockTokens, blockDocLines_several hlines, shownLines_several hlines, if_pos h, if_pos h,
      List.nil_append]
    by_cases hlast : isBlankLine last
    · rw [if_pos hlast, List.append_nil]
      rcases middle with _ | ⟨line, middle⟩
      · rw [if_neg fun h => h.1 rfl, List.zipIdx_nil, if_pos rfl]
        simp [lineToken, blockDocText_of_isBlankLine hlast]
      · rw [if_pos ⟨List.cons_ne_nil _ _, hlast⟩, if_neg (by simp), map_zipIdx_one]
    · have hone : middle.zipIdx 1 ++ [(last, middle.length + 1)] = (middle ++ [last]).zipIdx 1 := by
        rw [List.zipIdx_append, Nat.add_comm]
        rfl
      rw [if_neg hlast, if_neg fun h => hlast h.2, if_neg (by simp), hone, map_zipIdx_one]

/-- The line numbers of a block are those of the source exactly if its first line stands. -/
theorem blockTokens_eq_iff (p : Position) (content : List Char) :
    blockTokens p content = (shownLines content).map (lineToken p) ↔ ¬ opensBlank content := by
  refine ⟨fun heq h => ?_, fun h => blockTokens_of_not_opensBlank h p⟩
  rw [blockTokens_of_opensBlank h] at heq
  obtain ⟨line, hline⟩ | ⟨first, middle, last, hlines⟩ := splitAt_cases content
  · obtain ⟨_, _, _, hcons, -⟩ := h
    cases hline.symm.trans hcons
  · have hpos : ∀ line ∈ shownLines content, 1 ≤ line.2 := by
      rw [opensBlank_several hlines] at h
      rw [shownLines_several hlines, if_pos h, List.nil_append]
      rintro ⟨line, i⟩ hmem
      rcases List.mem_append.1 hmem with hmem | hmem
      · exact List.le_snd_of_mem_zipIdx hmem
      · split at hmem
        · cases hmem
        · cases List.mem_singleton.1 hmem
          exact Nat.le_add_left 1 _
    split at heq
    · rename_i hnil
      simp [hnil] at heq
    · rename_i hne
      obtain ⟨line, more, hmore⟩ := List.exists_cons_of_ne_nil hne
      have hline := hpos line (by rw [hmore]; exact List.mem_cons_self)
      rw [hmore, List.map_cons, List.map_cons] at heq
      have hnumber := congrArg (fun t : Token => t.pos.line) (List.cons.inj heq).1
      simp only [lineToken] at hnumber
      omega

/-! ## Sources -/

/-- A block of documentation is one lexeme. -/
theorem first?_blockDoc {content : List Char} (hbody : Lexeme.CommentBody content)
    (hdoc : ∀ c ∈ (content ++ ['*', '/']).head?, c ≠ '*' ∧ c ≠ '/') (rest : List Char) :
    Lexeme.first? ("/**".toList ++ content ++ "*/".toList ++ rest) =
      some (.whole (.blockDoc content) ("/**".toList ++ content ++ "*/".toList), rest) := by
  have htail : Lexeme.blockTail 0 (content ++ '*' :: '/' :: rest) = ⟨content, ['*', '/'], rest⟩ := by
    rw [Lexeme.blockTail_of_commentBody hbody, Lexeme.blockTail]
    simp [Lexeme.Enclosed.after]
  have hopens : Lexeme.opensBlockDoc ('*' :: (content ++ '*' :: '/' :: rest)) := by
    rcases content with _ | ⟨c, content⟩
    · exact absurd rfl (hdoc '*' rfl).1
    · obtain ⟨hstar, hslash⟩ := hdoc c rfl
      simp [Lexeme.opensBlockDoc_cons_cons, hstar, hslash]
  have htext : "/**".toList ++ content ++ "*/".toList ++ rest =
      '/' :: '*' :: '*' :: (content ++ '*' :: '/' :: rest) := by
    simp
  have hread : Lexeme.blockComment? ('/' :: '*' :: '*' :: (content ++ '*' :: '/' :: rest)) =
      some (.whole (.blockDoc content) ("/**".toList ++ content ++ "*/".toList), rest) := by
    rw [Lexeme.blockComment?, if_pos hopens, List.drop_succ_cons, List.drop_zero, htail]
    simp [Lexeme.Enclosed.text]
  rw [htext, first?_of_blockComment? hread]

/-- **A block of documentation gives a token for each of its lines**, but for a blank first and a
blank last one of several. The tokens are on the lines where their texts stand exactly if the first
line is not left out; otherwise each of them is on the line before that, and a block of two blank
lines gives one token without text. -/
theorem tokenize_blockDoc {source : String} {before after : List Lexeme} {content rest : List Char}
    (hsplit : lexemes source.toList = before ++ after)
    (htext : after.flatMap (·.text) = "/**".toList ++ content ++ "*/".toList ++ rest)
    (hbody : Lexeme.CommentBody content)
    (hdoc : ∀ c ∈ (content ++ ['*', '/']).head?, c ≠ '*' ∧ c ≠ '/') :
    let p := Position.start.after (before.flatMap (·.text))
    let q := p.after ("/**".toList ++ content ++ "*/".toList)
    ∃ ts, (tokenize source).tokens = (TokenStream.ofLexemes Position.start before).tokens ++ ts ++
        (TokenStream.ofSource q rest).tokens ∧
      (ts = (shownLines content).map (lineToken p) ↔ ¬ opensBlank content) ∧
      (opensBlank content → ts = if shownLines content = [] then [⟨.doc, "", p⟩] else
        (shownLines content).map fun line => lineToken p (line.1, line.2 - 1)) := by
  intro p q
  refine ⟨blockTokens p content, ?_, blockTokens_eq_iff p content,
    fun h => blockTokens_of_opensBlank h p⟩
  have hstream := TokenStream.tokens_ofSource_append hsplit Position.start
  rw [htext, TokenStream.tokens_ofSource (first?_blockDoc hbody hdoc rest), ← List.append_assoc]
    at hstream
  exact hstream

/-- A block of three lines of which the first one and the last one are blank: its token is on the
line before that of its text. -/
theorem tokenize_blockDoc_blankFirst :
    let source := "a /**\n * b\n */ c"
    let before : List Lexeme :=
      [.whole (.token .identifier ['a']) ['a'], .whole .blank [' ']]
    let after : List Lexeme :=
      [.whole (.blockDoc "\n * b\n ".toList) "/**\n * b\n */".toList, .whole .blank [' '],
        .whole (.token .identifier ['c']) ['c']]
    let content := "\n * b\n ".toList
    lexemes source.toList = before ++ after ∧
      after.flatMap (·.text) = "/**".toList ++ content ++ "*/".toList ++ " c".toList ∧
      Lexeme.CommentBody content ∧ (∀ c ∈ (content ++ ['*', '/']).head?, c ≠ '*' ∧ c ≠ '/') ∧
      opensBlank content ∧ shownLines content = [(" * b".toList, 1)] ∧
      (tokenize source).tokens =
        [⟨.identifier, "a", ⟨1, 1⟩⟩, ⟨.doc, " b", ⟨1, 3⟩⟩, ⟨.identifier, "c", ⟨3, 5⟩⟩] := by
  intro source before after content
  have hsplit : lexemes source.toList = before ++ after := by decide +kernel
  have htext : after.flatMap (·.text) =
      "/**".toList ++ content ++ "*/".toList ++ " c".toList := by decide +kernel
  have hbody : Lexeme.CommentBody content := by
    iterate 7 refine .char (by decide) (by decide) ?_
    exact .nil
  have hdoc : ∀ c ∈ (content ++ ['*', '/']).head?, c ≠ '*' ∧ c ≠ '/' := by
    rintro c ⟨⟩
    decide
  have hopens : opensBlank content := ⟨[], " * b".toList, [[' ']], by decide +kernel, rfl⟩
  have hshown : shownLines content = [(" * b".toList, 1)] := by decide +kernel
  obtain ⟨ts, htokens, -, hts⟩ := tokenize_blockDoc hsplit htext hbody hdoc
  refine ⟨hsplit, htext, hbody, hdoc, hopens, hshown, ?_⟩
  rw [htokens, hts hopens, hshown]
  decide +kernel

end Rust
end Ferrotype

/-
# Reading types

The text of a type is cut into lexemes, string literals and single characters, and blanks and
comments are left out. `cut` cuts lexemes at a separator that stands outside all brackets. Since
`&` binds tighter than `|`, the alternatives of a type are what `|` separates, and the operands of
an alternative what `&` separates in it; the brackets of an array bind tighter than both and stay
with the type before them.

A text is read apart from what follows it if it ends neither in a comment nor in a literal
(`Written`), and lexemes are flat if they close all brackets that they open and no separator stands
outside them (`isFlat`). Flat lexemes stay together when they are cut (`cut_of_isFlat`).
-/

import Ferrotype.Proofs.TypeScript.Comment
import Ferrotype.TypeScript.Declaration

namespace Ferrotype
namespace TypeScript

/-! ## Lexemes -/

/-- A string literal by what stands between its quotes, or a character outside literals. -/
inductive Lexeme
  | literal (raw : List Char)
  | char (c : Char)
deriving Repr, DecidableEq

/-- What a text goes on with. -/
inductive Mode
  | code
  | comment
  /-- A literal, with what was read of it. -/
  | literal (raw : List Char)

/-- Whether a character separates lexemes and is none itself. -/
def isBlank (c : Char) : Bool := c == ' ' || c == '\t' || c == '\r' || c == '\n'

/-- The lexemes of a text. -/
def lexemesFrom : Mode → List Char → List Lexeme
  | _, [] => []
  | .code, '/' :: '*' :: cs => lexemesFrom .comment cs
  | .code, '"' :: cs => lexemesFrom (.literal []) cs
  | .code, c :: cs =>
    if isBlank c then lexemesFrom .code cs else .char c :: lexemesFrom .code cs
  | .comment, '*' :: '/' :: cs => lexemesFrom .code cs
  | .comment, _ :: cs => lexemesFrom .comment cs
  | .literal raw, '"' :: cs => .literal raw :: lexemesFrom .code cs
  | .literal raw, '\\' :: c :: cs => lexemesFrom (.literal (raw ++ ['\\', c])) cs
  | .literal raw, c :: cs => lexemesFrom (.literal (raw ++ [c])) cs

/-- The lexemes of a text. -/
def lexemes (text : String) : List Lexeme := lexemesFrom .code text.toList

/-! ## Cutting -/

namespace Lexeme

/-- Whether a lexeme opens a group of brackets. -/
def opens : Lexeme → Bool
  | .char c => ['(', '[', '{', '<'].contains c
  | .literal _ => false

/-- Whether a lexeme closes a group of brackets. -/
def closes : Lexeme → Bool
  | .char c => [')', ']', '}', '>'].contains c
  | .literal _ => false

/-- Whether a lexeme is one of some characters. -/
def isAny (cs : List Char) : Lexeme → Bool
  | .char c => cs.contains c
  | .literal _ => false

/-- The groups that are open after a lexeme. -/
def depthAfter (depth : Nat) (l : Lexeme) : Nat :=
  if l.opens then depth + 1 else if l.closes then depth - 1 else depth

/-- A lexeme does the same one level deeper. -/
theorem depthAfter_succ {l : Lexeme} {depth : Nat} (h : depth = 0 → l.closes = false) :
    l.depthAfter (depth + 1) = l.depthAfter depth + 1 := by
  unfold depthAfter
  split
  · rfl
  · split
    · rename_i hcloses
      cases depth with
      | zero => exact absurd (h rfl) (by rw [hcloses]; decide)
      | succ depth => rfl
    · rfl

end Lexeme

/-- Pieces with more lexemes in front of the first one. -/
def prepend (ls : List Lexeme) (pieces : List (List Lexeme)) : List (List Lexeme) :=
  (ls ++ pieces.headD []) :: pieces.tail

/-- The pieces of lexemes between the occurrences of a separator outside all groups; `depth` groups
are open. -/
def cut (sep : Char) : Nat → List Lexeme → List (List Lexeme)
  | _, [] => [[]]
  | depth, l :: ls =>
    if depth = 0 ∧ l = .char sep then [] :: cut sep 0 ls
    else prepend [l] (cut sep (l.depthAfter depth) ls)

/-- The lexemes of the type without values. -/
def never : List Lexeme := lexemes "never"

/-- The alternatives of a type. A bar may stand before the first one, and `never` is none. -/
def alternatives (ls : List Lexeme) : List (List Lexeme) :=
  (cut '|' 0 ls).filter fun piece => !piece.isEmpty && piece != never

/-- The operands of an alternative. -/
def operands (ls : List Lexeme) : List (List Lexeme) := cut '&' 0 ls

/-- Whether lexemes that stand inside `depth` open groups close these and all that are opened in
them, and hold none of some separators outside the groups. -/
def isFlat (seps : List Char) : Nat → List Lexeme → Bool
  | depth, [] => depth == 0
  | depth, l :: ls =>
    !(depth == 0 && (l.closes || l.isAny seps)) && isFlat seps (l.depthAfter depth) ls

/-- Whether lexemes are those of an object type with a certain property. -/
def HasProperty (property ls : List Lexeme) : Prop :=
  ∃ body, ls = .char '{' :: (body ++ [.char '}']) ∧ isFlat [] 0 body ∧ property ∈ cut ';' 0 body

/-- Whether an alternative is an object type with a tag, or an intersection with one. -/
def Carries (tag : Tag) (alternative : List Lexeme) : Prop :=
  ∃ operand ∈ operands alternative, HasProperty (lexemes tag.render) operand

/-! ## Flat lexemes -/

/-- The separators of types and properties. -/
def separators : List Char := ['|', '&', ';']

variable {seps : List Char} {depth : Nat} {ls : List Lexeme}

/-- A cut leaves a piece. -/
theorem cut_ne_nil (sep : Char) (depth : Nat) (ls : List Lexeme) : cut sep depth ls ≠ [] := by
  cases ls with
  | nil => exact List.cons_ne_nil _ _
  | cons l ls =>
    rw [cut]
    split <;> exact List.cons_ne_nil _ _

/-- Nothing in front changes nothing. -/
theorem prepend_nil {pieces : List (List Lexeme)} (h : pieces ≠ []) :
    prepend [] pieces = pieces := by
  cases pieces with
  | nil => exact absurd rfl h
  | cons piece pieces => rfl

/-- What stands in front of what stands in front is in front of both. -/
theorem prepend_prepend (as bs : List Lexeme) (pieces : List (List Lexeme)) :
    prepend as (prepend bs pieces) = prepend (as ++ bs) pieces := by
  simp [prepend]

/-- A list is flat if its first lexeme neither closes nor separates anything at the top, and the
others are flat behind it. -/
theorem isFlat_cons {l : Lexeme} : isFlat seps depth (l :: ls) ↔
    (depth = 0 → l.closes = false ∧ l.isAny seps = false) ∧
      isFlat seps (l.depthAfter depth) ls := by
  rw [isFlat, Bool.and_eq_true, Bool.not_eq_true', Bool.and_eq_false_iff, Bool.or_eq_false_iff,
    beq_eq_false_iff_ne, ne_eq, Decidable.imp_iff_not_or]

/-- **Flat lexemes stay together when they are cut.** -/
theorem cut_of_isFlat {sep : Char} (hsep : sep ∈ seps) (h : isFlat seps depth ls)
    (rest : List Lexeme) : cut sep depth (ls ++ rest) = prepend ls (cut sep 0 rest) := by
  induction ls generalizing depth with
  | nil =>
    obtain rfl := beq_iff_eq.1 h
    exact (prepend_nil (cut_ne_nil sep 0 rest)).symm
  | cons l ls ih =>
    obtain ⟨hl, hls⟩ := isFlat_cons.1 h
    have hkept : ¬ (depth = 0 ∧ l = .char sep) := by
      rintro ⟨hdepth, rfl⟩
      have hnot := (hl hdepth).2
      rw [Lexeme.isAny, List.contains_iff_mem.2 hsep] at hnot
      cases hnot
    rw [List.cons_append, cut, if_neg hkept, ih hls, prepend_prepend, List.singleton_append]

/-- A flat list is not cut at any of its separators. -/
theorem cut_self_of_isFlat {sep : Char} (hsep : sep ∈ seps) (h : isFlat seps 0 ls) :
    cut sep 0 ls = [ls] := by
  have hcut := cut_of_isFlat hsep h []
  rw [List.append_nil] at hcut
  rw [hcut]
  simp [prepend, cut]

/-- Flat lists are flat one behind the other. -/
theorem isFlat_append {bs : List Lexeme} (h : isFlat seps depth ls) (hbs : isFlat seps 0 bs) :
    isFlat seps depth (ls ++ bs) := by
  induction ls generalizing depth with
  | nil =>
    obtain rfl := beq_iff_eq.1 h
    exact hbs
  | cons l ls ih =>
    obtain ⟨hl, hls⟩ := isFlat_cons.1 h
    exact isFlat_cons.2 ⟨hl, ih hls⟩

/-- Fewer separators leave flat lexemes flat. -/
theorem isFlat_mono {seps' : List Char} (hseps : ∀ c ∈ seps', c ∈ seps)
    (h : isFlat seps depth ls) : isFlat seps' depth ls := by
  induction ls generalizing depth with
  | nil => exact h
  | cons l ls ih =>
    obtain ⟨hl, hls⟩ := isFlat_cons.1 h
    refine isFlat_cons.2 ⟨fun hdepth => ⟨(hl hdepth).1, ?_⟩, ih hls⟩
    have hnot := (hl hdepth).2
    cases l with
    | literal raw => rfl
    | char c =>
      rw [Lexeme.isAny, ← Bool.not_eq_true, List.contains_iff_mem] at hnot ⊢
      exact fun hc => hnot (hseps c hc)

/-- Inside a group that is closed behind them, lexemes can hold separators. -/
theorem isFlat_close (h : isFlat [] depth ls) {closer : Lexeme} (hcloses : closer.closes)
    (hopens : closer.opens = false) :
    isFlat seps (depth + 1) (ls ++ [closer]) := by
  induction ls generalizing depth with
  | nil =>
    obtain rfl := beq_iff_eq.1 h
    refine isFlat_cons.2 ⟨fun hdepth => absurd hdepth (Nat.succ_ne_zero _), ?_⟩
    rw [Lexeme.depthAfter, hopens, if_neg Bool.false_ne_true, if_pos hcloses]
    rfl
  | cons l ls ih =>
    obtain ⟨hl, hls⟩ := isFlat_cons.1 h
    refine isFlat_cons.2 ⟨fun hdepth => absurd hdepth (Nat.succ_ne_zero _), ?_⟩
    rw [Lexeme.depthAfter_succ fun hdepth => (hl hdepth).1]
    exact ih hls

/-- A group in its brackets is flat. -/
theorem isFlat_group (h : isFlat [] 0 ls) {opener closer : Lexeme}
    (hopener : opener.opens ∧ opener.closes = false ∧ opener.isAny seps = false)
    (hcloser : closer.closes ∧ closer.opens = false) :
    isFlat seps 0 (opener :: (ls ++ [closer])) := by
  refine isFlat_cons.2 ⟨fun _ => hopener.2, ?_⟩
  rw [Lexeme.depthAfter, if_pos hopener.1]
  exact isFlat_close h hcloser.1 hcloser.2

/-- What holds no brackets and none of the separators is flat. -/
theorem isFlat_of_forall
    (h : ∀ l ∈ ls, l.opens = false ∧ l.closes = false ∧ l.isAny seps = false) :
    isFlat seps 0 ls := by
  induction ls with
  | nil => rfl
  | cons l ls ih =>
    obtain ⟨⟨hopens, hl⟩, hls⟩ := List.forall_mem_cons.1 h
    refine isFlat_cons.2 ⟨fun _ => hl, ?_⟩
    rw [Lexeme.depthAfter, hopens, hl.1, if_neg Bool.false_ne_true, if_neg Bool.false_ne_true]
    exact ih hls

/-! ## Texts that are read apart -/

/-- What a text is read as, whatever follows it. -/
def Written (text : String) (ls : List Lexeme) : Prop :=
  ∀ rest, lexemesFrom .code (text.toList ++ rest) = ls ++ lexemesFrom .code rest

variable {text more : String} {as bs : List Lexeme}

/-- A text that is written as lexemes has these. -/
theorem Written.lexemes_eq (h : Written text as) : lexemes text = as := by
  have hnil : lexemesFrom .code [] = [] := rfl
  have htext := h []
  rwa [List.append_nil, hnil, List.append_nil] at htext

/-- Texts have their lexemes one behind the other. -/
theorem Written.append (h : Written text as) (hmore : Written more bs) :
    Written (text ++ more) (as ++ bs) := by
  intro rest
  rw [String.toList_append, List.append_assoc, h, hmore, List.append_assoc]

/-- The empty text has none. -/
theorem written_empty : Written "" [] := fun _ => rfl

/-- Whether a character starts neither a literal nor a comment. -/
def isPlainChar (c : Char) : Bool := c != '"' && c != '/'

/-- The lexemes of characters that start neither a literal nor a comment. -/
def plainLexemes (cs : List Char) : List Lexeme := (cs.filter (!isBlank ·)).map .char

/-- A plain character is a lexeme, or a blank and none. -/
theorem lexemesFrom_plain {c : Char} (h : isPlainChar c) (cs : List Char) :
    lexemesFrom .code (c :: cs) = plainLexemes [c] ++ lexemesFrom .code cs := by
  rw [isPlainChar, Bool.and_eq_true, bne_iff_ne, bne_iff_ne] at h
  rw [lexemesFrom]
  · cases hblank : isBlank c <;> simp [plainLexemes, hblank]
  · exact fun _ hc _ => h.2 hc
  · exact h.1

/-- A text of plain characters has one for each that is no blank. -/
theorem written_plain (h : text.toList.all isPlainChar) :
    Written text (plainLexemes text.toList) := by
  intro rest
  generalize text.toList = cs at h ⊢
  induction cs with
  | nil => rfl
  | cons c cs ih =>
    rw [List.all_cons, Bool.and_eq_true] at h
    rw [List.cons_append, lexemesFrom_plain h.1, ih h.2, ← List.append_assoc, plainLexemes,
      plainLexemes, plainLexemes, ← List.map_append, ← List.filter_append, List.singleton_append]

/-! ## Literals -/

/-- A character that is neither a quote nor a backslash is part of the literal. -/
theorem lexemesFrom_literal_cons {c : Char} (h : c ≠ '"' ∧ c ≠ '\\') (raw cs : List Char) :
    lexemesFrom (.literal raw) (c :: cs) = lexemesFrom (.literal (raw ++ [c])) cs := by
  rw [lexemesFrom]
  · exact h.1
  · exact fun _ _ hc _ => h.2 hc

/-- So are several of them. -/
theorem lexemesFrom_literal_of_forall {cs : List Char} (h : ∀ c ∈ cs, c ≠ '"' ∧ c ≠ '\\')
    (raw rest : List Char) :
    lexemesFrom (.literal raw) (cs ++ rest) = lexemesFrom (.literal (raw ++ cs)) rest := by
  induction cs generalizing raw with
  | nil => rw [List.nil_append, List.append_nil]
  | cons c cs ih =>
    obtain ⟨hc, hcs⟩ := List.forall_mem_cons.1 h
    rw [List.cons_append, lexemesFrom_literal_cons hc, ih hcs, List.append_assoc,
      List.singleton_append]

/-- Hexadecimal digits end no literal. -/
theorem ne_of_mem_padded {width n : Nat} :
    ∀ c ∈ Text.Hexadecimal.padded width n, c ≠ '"' ∧ c ≠ '\\' := by
  have hdigits : ∀ k < 16, Text.Hexadecimal.digit k ≠ '"' ∧ Text.Hexadecimal.digit k ≠ '\\' := by
    decide
  induction width generalizing n with
  | zero => exact List.forall_mem_nil _
  | succ width ih =>
    rw [Text.Hexadecimal.padded, List.forall_mem_append, List.forall_mem_singleton]
    exact ⟨ih, hdigits _ (Nat.mod_lt _ (by decide))⟩

/-- A backslash is part of it with the character behind it. -/
theorem lexemesFrom_escape (e : Char) (raw rest : List Char) :
    lexemesFrom (.literal raw) ('\\' :: e :: rest) =
      lexemesFrom (.literal (raw ++ ['\\', e])) rest := rfl

/-- What is put together of parts that do not end a literal does not end it. -/
theorem lexemesFrom_flatMap {α : Type} {write : α → List Char}
    (h : ∀ a raw rest, lexemesFrom (.literal raw) (write a ++ rest) =
      lexemesFrom (.literal (raw ++ write a)) rest) (as : List α) (raw rest : List Char) :
    lexemesFrom (.literal raw) (as.flatMap write ++ rest) =
      lexemesFrom (.literal (raw ++ as.flatMap write)) rest := by
  induction as generalizing raw with
  | nil => rw [List.flatMap_nil, List.nil_append, List.append_nil]
  | cons a as ih => rw [List.flatMap_cons, List.append_assoc, h, ih, List.append_assoc]

/-- An escape by number is part of it. -/
theorem lexemesFrom_unitEscape (unit : Nat) (raw rest : List Char) :
    lexemesFrom (.literal raw) (Text.unitEscape unit ++ rest) =
      lexemesFrom (.literal (raw ++ Text.unitEscape unit)) rest := by
  rw [Text.unitEscape, List.cons_append, List.cons_append, lexemesFrom_escape,
    lexemesFrom_literal_of_forall ne_of_mem_padded, List.append_assoc]
  rfl

/-- What stands for a character in a literal does not end it. -/
theorem lexemesFrom_literalChar (plain : Char → Bool) (c : Char) (raw rest : List Char) :
    lexemesFrom (.literal raw) (Text.literalChar plain c ++ rest) =
      lexemesFrom (.literal (raw ++ Text.literalChar plain c)) rest := by
  fun_cases Text.literalChar plain c with
  | case3 hquote hbackslash hplain => exact lexemesFrom_literal_cons ⟨hquote, hbackslash⟩ raw rest
  | case9 => exact lexemesFrom_flatMap lexemesFrom_unitEscape _ raw rest
  | _ => exact lexemesFrom_escape _ raw rest

/-- A literal is one lexeme, whatever it holds. -/
theorem written_literalWith (plain : Char → Bool) (text : String) :
    Written (Text.literalWith plain text)
      [.literal (text.toList.flatMap (Text.literalChar plain))] := by
  intro rest
  have hopen (cs : List Char) : lexemesFrom .code ('"' :: cs) = lexemesFrom (.literal []) cs := rfl
  have hclose (raw cs : List Char) :
      lexemesFrom (.literal raw) ('"' :: cs) = .literal raw :: lexemesFrom .code cs := rfl
  rw [Text.literalWith, String.toList_ofList, List.cons_append, List.append_assoc, hopen,
    lexemesFrom_flatMap (lexemesFrom_literalChar plain), List.nil_append, List.singleton_append,
    hclose]
  rfl

/-! ## Comments -/

/-- A character that closes no comment is passed in it. -/
theorem lexemesFrom_comment_cons {c : Char} {cs : List Char}
    (h : c = '*' → cs.head? ≠ some '/') :
    lexemesFrom .comment (c :: cs) = lexemesFrom .comment cs := by
  rw [lexemesFrom]
  rintro ds rfl rfl
  exact h rfl rfl

/-- A comment ends behind its unclosed content, and not before. -/
theorem lexemesFrom_comment_of_unclosed {cs : List Char} (h : Unclosed cs) (rest : List Char) :
    lexemesFrom .comment (cs ++ '*' :: '/' :: rest) = lexemesFrom .code rest := by
  induction cs with
  | nil => rfl
  | cons c cs ih =>
    rw [List.cons_append, lexemesFrom_comment_cons, ih h.tail]
    rintro rfl
    cases cs with
    | nil => exact fun hstar => absurd (Option.some.inj hstar) (by decide)
    | cons d ds => exact fun hd => h.rel rfl (Option.some.inj hd)

/-- Blanks are no lexemes. -/
theorem written_spaces (n : Nat) : Written (Text.spaces n) [] := by
  intro rest
  rw [Text.spaces, String.toList_ofList]
  induction n with
  | zero => rfl
  | succ n ih => exact ih

/-- **A block comment is read as nothing.** -/
theorem written_of_isBlockComment {blanks : Nat} {text : String}
    (h : IsBlockComment blanks text) : Written text [] := by
  obtain ⟨content, htext, hcontent⟩ := h
  intro rest
  have hcut : text.toList ++ rest = (Text.spaces blanks).toList ++
      ('/' :: '*' :: ('*' :: content ++ '*' :: '/' :: '\n' :: rest)) := by
    simp [htext]
  have hopen (cs : List Char) :
      lexemesFrom .code ('/' :: '*' :: cs) = lexemesFrom .comment cs := rfl
  rw [hcut, written_spaces, hopen, lexemesFrom_comment_of_unclosed (unclosed_iff.2 hcontent)]
  rfl

/-- **Documentation is read as nothing.** -/
theorem written_renderComment (n : Nat) (docs : List String) :
    Written (renderComment n docs) [] := by
  cases docs with
  | nil => exact written_empty
  | cons line lines => exact written_of_isBlockComment (isBlockComment_renderComment n line lines)

end TypeScript
end Ferrotype

/-
# Tokens tile the source

A source is made up of spans, one for each lexeme that gives tokens, and gaps of layout and ordinary
comments between them. `Tiles` says so, and it says what stands in each span: its first token is at
the place where the span starts, and the text of a token is the span, but for the letters in front
of bytes and raw words, and but for raw literals, whose token stands for their body. Each span is
read whole: what follows does not go on with it, and a mark that stands alone starts no other
lexeme.

No character of a source is lost or counted twice, and the lines of the tokens never decrease
(`tiles_tokenize`). What all spans have in common holds of a whole source: its numbers are numerals
(`isNumeral_of_mem_tokenize`).
-/

import Mathlib.Data.List.Induction
import Ferrotype.Proofs.Rust.Spelling
import Ferrotype.Proofs.Rust.Tokenize.BlockDoc
import Ferrotype.Proofs.Rust.Tokenize.Longest
import Ferrotype.Proofs.Rust.Tokenize.Plain

namespace Ferrotype

/-! ## Places -/

namespace Position

/-- The place behind a text: one more than its line feeds, and one more than the characters behind
the last of them. -/
def behind (cs : List Char) : Position :=
  ⟨cs.count '\n' + 1, (cs.reverse.takeWhile (· != '\n')).length + 1⟩

/-- The place behind a text that starts a source. -/
theorem after_start (cs : List Char) : start.after cs = behind cs := by
  induction cs using List.reverseRecOn with
  | nil => rfl
  | append_singleton cs c ih =>
    rw [after_append, ih, after_cons, after_nil, next]
    split
    · rename_i hc
      simp [behind, hc]
    · rename_i hc
      simp [behind, hc]

/-- The place behind two texts. -/
theorem behind_after (xs ys : List Char) : (behind xs).after ys = behind (xs ++ ys) := by
  rw [← after_start, ← after_start, after_append]

/-- A text ends as many lines further as it has line feeds. -/
theorem line_after (p : Position) (cs : List Char) :
    (p.after cs).line = p.line + cs.count '\n' := by
  induction cs generalizing p with
  | nil => rfl
  | cons c cs ih =>
    rw [after_cons, ih, List.count_cons, next]
    split
    · rename_i hc
      simp [hc]
      omega
    · rename_i hc
      simp [hc]

end Position

namespace Rust

open Lexeme (CommentBody quotedTail)

/-! ## Gaps -/

/-- Whether a comment is documentation, by the character that makes it so, the characters behind
that one that make it ordinary again, and what follows the opening of the comment. -/
def Documents (mark : Char) (again behind : List Char) : Prop :=
  ∃ tail, behind = mark :: tail ∧ ∀ c ∈ tail.head?, c ∉ again

/-- What may stand in front of a span: layout and ordinary comments that end. -/
inductive Gap : List Char → Prop
  | nil : Gap []
  | layout {c : Char} {cs : List Char} (hc : c ∈ [' ', '\t', '\r', '\n']) (h : Gap cs) :
      Gap (c :: cs)
  | line {content cs : List Char} (hcontent : '\n' ∉ content)
      (hplain : ¬ Documents '/' ['/'] content) (h : Gap cs) :
      Gap ('/' :: '/' :: (content ++ '\n' :: cs))
  | block {content cs : List Char} (hcontent : CommentBody content)
      (hplain : ¬ Documents '*' ['*', '/'] (content ++ ['*', '/'])) (h : Gap cs) :
      Gap ('/' :: '*' :: (content ++ '*' :: '/' :: cs))

/-- What may stand behind the last span: the same, and an ordinary comment that the end of the
source cuts off. -/
inductive LastGap : List Char → Prop
  | gap {cs : List Char} (h : Gap cs) : LastGap cs
  | line {cs content : List Char} (h : Gap cs) (hcontent : '\n' ∉ content)
      (hplain : ¬ Documents '/' ['/'] content) : LastGap (cs ++ '/' :: '/' :: content)
  | block {cs content : List Char} (h : Gap cs)
      (hcontent : ∀ body rest, CommentBody body → content ≠ body ++ '*' :: '/' :: rest)
      (hplain : ¬ Documents '*' ['*', '/'] content) : LastGap (cs ++ '/' :: '*' :: content)

/-- A gap behind a gap is one gap. -/
theorem Gap.append {xs ys : List Char} (hxs : Gap xs) (hys : Gap ys) : Gap (xs ++ ys) := by
  induction hxs with
  | nil => exact hys
  | layout hc _ ih => exact .layout hc ih
  | line hcontent hplain _ ih => simpa using Gap.line hcontent hplain ih
  | block hcontent hplain _ ih => simpa using Gap.block hcontent hplain ih

/-- A gap in front of the last one is part of it. -/
theorem Gap.append_last {xs ys : List Char} (hxs : Gap xs) (hys : LastGap ys) :
    LastGap (xs ++ ys) := by
  cases hys with
  | gap h => exact .gap (hxs.append h)
  | line h hcontent hplain =>
    rw [← List.append_assoc]
    exact .line (hxs.append h) hcontent hplain
  | block h hcontent hplain =>
    rw [← List.append_assoc]
    exact .block (hxs.append h) hcontent hplain

/-! ## Spans -/

/-- Whether no word goes on in what follows. -/
def EndsWord (rest : List Char) : Prop := ∀ d ∈ rest.head?, Unicode.isWordChar d = false

/-- Letters that are no word in front of what follows: they announce a literal that is raw or of
bytes, or a raw word. -/
inductive Announces : List Char → List Char → Prop
  | raw {rest : List Char} (h : Lexeme.opensRaw rest) : Announces ['r'] rest
  | rawBytes {rest : List Char} (h : Lexeme.opensRawBytes rest) : Announces ['b', 'r'] rest
  | byteString {rest : List Char} : Announces ['b'] ('"' :: rest)
  | byte {rest : List Char} : Announces ['b'] ('\'' :: rest)
  | rawWord {c : Char} {rest : List Char} (h : Unicode.isWordStart c) :
      Announces ['r'] ('#' :: c :: rest)

/-- What belongs to a literal behind its opening quote, and what follows: all up to the closing
quote, or the whole of a source in which no quote closes it. -/
inductive IsQuoted (quote : Char) : List Char → List Char → Prop
  | closed {body rest : List Char} (h : QuotedBody quote body) :
      IsQuoted quote (body ++ [quote]) rest
  | unclosed {cs : List Char}
      (h : ∀ body more, QuotedBody quote body → cs ≠ body ++ quote :: more) : IsQuoted quote cs []

/-- What stands in a comment behind its opening, the delimiter that closes it, and what follows. At
the end of a source no delimiter has to close it. -/
inductive IsEnclosed : List Char → List Char → List Char → Prop
  | closed {content rest : List Char} (h : CommentBody content) :
      IsEnclosed content ['*', '/'] rest
  | unclosed {content : List Char}
      (h : ∀ body more, CommentBody body → content ≠ body ++ '*' :: '/' :: more) :
      IsEnclosed content [] []

/-- A raw literal with its quotes and hashes, of text or of bytes. -/
def IsRaw (span body : List Char) : Prop :=
  ∃ letters hashes, (letters = ['r'] ∨ letters = ['b', 'r']) ∧ ¬ rawClosing hashes <:+: body ∧
    span = letters ++ (List.replicate hashes '#' ++ '"' :: (body ++ rawClosing hashes))

/-- What a span is in front of the rest of its source, and the tokens that it gives at a place. -/
inductive Stands (p : Position) : List Char → List Char → List Token → Prop
  /-- A mark starts no other lexeme: it is no layout, no quote, no digit and no letter, and with
  what follows it is no pair and opens no comment. -/
  | mark {c : Char} {rest : List Char} (hc : isMark c)
      (halone : ∀ d ∈ rest.head?, Kind.ofPair? c d = none ∧ (c = '/' → d ≠ '/' ∧ d ≠ '*')) :
      Stands p [c] rest [⟨Kind.ofMark c, String.ofList [c], p⟩]
  | pair {c d : Char} {kind : Kind} {rest : List Char} (h : Kind.ofPair? c d = some kind) :
      Stands p [c, d] rest [⟨kind, String.ofList [c, d], p⟩]
  | word {text rest : List Char} (h : Piece.isWord text) (hends : EndsWord rest)
      (hplain : ¬ Announces text rest) :
      Stands p text rest [⟨Kind.ofWord text, String.ofList text, p⟩]
  /-- A number is the longest numeral that stands there. -/
  | number {text rest : List Char} (h : isNumeral text)
      (hlongest : ∀ more, more <+: rest → isNumeral (text ++ more) → more = []) :
      Stands p text rest [⟨.number, String.ofList text, p⟩]
  | lifetime {cs rest : List Char} (hcs : ∀ d ∈ cs, Unicode.isWordChar d) (hends : EndsWord rest)
      (hopens : ¬ Lexeme.opensChar (cs ++ rest)) :
      Stands p ('\'' :: cs) rest [⟨.lifetime, String.ofList ('\'' :: cs), p⟩]
  | string {cs rest : List Char} (h : IsQuoted '"' cs rest) :
      Stands p ('"' :: cs) rest [⟨.string, String.ofList ('"' :: cs), p⟩]
  | char {cs rest : List Char} (h : IsQuoted '\'' cs rest)
      (hopens : Lexeme.opensChar (cs ++ rest)) :
      Stands p ('\'' :: cs) rest [⟨.char, String.ofList ('\'' :: cs), p⟩]
  | byteString {cs rest : List Char} (h : IsQuoted '"' cs rest) :
      Stands p ('b' :: '"' :: cs) rest [⟨.string, String.ofList ('"' :: cs), p⟩]
  | byte {cs rest : List Char} (h : IsQuoted '\'' cs rest) :
      Stands p ('b' :: '\'' :: cs) rest [⟨.char, String.ofList ('\'' :: cs), p⟩]
  | rawWord {text rest : List Char} (h : Piece.isWord text) (hends : EndsWord rest) :
      Stands p ('r' :: '#' :: text) rest [⟨.identifier, String.ofList text, p⟩]
  /-- A raw literal: its token stands for the body. -/
  | raw {span body rest : List Char} {value : String} (h : IsRaw span body)
      (hvalue : unquote value = .ok (String.ofList body)) : Stands p span rest [⟨.string, value, p⟩]
  /-- The letters of a raw literal with none behind them: the source ends in it, or no quote opens
  it. -/
  | brokenRaw {span rest : List Char} {value : String}
      (hletters : ['r'] <+: span ∨ ['b', 'r'] <+: span)
      (h : ∀ literal body, IsRaw literal body → ¬ literal <+: span) :
      Stands p span rest [⟨.string, value, p⟩]
  | lineDoc {content rest : List Char} (hcontent : '\n' ∉ content)
      (hends : ∀ d ∈ rest.head?, d = '\n') (hdoc : Documents '/' ['/'] ('/' :: content)) :
      Stands p ('/' :: '/' :: '/' :: content) rest [⟨.doc, String.ofList (lineDocText content), p⟩]
  /-- A block of documentation, to its closing delimiter or to the end of the source. The first of
  its tokens is at its start. -/
  | blockDoc {content closing rest : List Char} {first : Token} {more : List Token}
      (hcontent : IsEnclosed content closing rest)
      (hdoc : Documents '*' ['*', '/'] ('*' :: (content ++ closing)))
      (htokens : blockTokens p content = first :: more) (hfirst : first.pos = p) :
      Stands p ('/' :: '*' :: '*' :: (content ++ closing)) rest (first :: more)

/-- A text behind another one that is made up of gaps and spans, with the tokens of the spans. -/
inductive Tiles : List Char → List Char → List (List Char) → List Token → Prop
  | last {read gap : List Char} (h : LastGap gap) : Tiles read gap [] []
  | tile {read gap span rest : List Char} {spans : List (List Char)} {ts more : List Token}
      (hgap : Gap gap) (hspan : Stands (.behind (read ++ gap)) span rest ts)
      (h : Tiles (read ++ gap ++ span) rest spans more) :
      Tiles read (gap ++ span ++ rest) (span :: spans) (ts ++ more)

/-- A gap in front of a text makes its first gap longer. -/
theorem Tiles.behind_gap {read gap source : List Char} {spans : List (List Char)}
    {ts : List Token} (hgap : Gap gap) (h : Tiles (read ++ gap) source spans ts) :
    Tiles read (gap ++ source) spans ts := by
  cases h with
  | last h => exact .last (hgap.append_last h)
  | @tile _ gap' span rest spans ts more hgap' hspan h =>
    have htiles : Tiles read (gap ++ gap' ++ span ++ rest) (span :: spans) (ts ++ more) :=
      .tile (hgap.append hgap') (by rwa [← List.append_assoc]) (by rwa [← List.append_assoc])
    simpa only [List.append_assoc] using htiles

/-- A span in front of a text is a tile with no gap. -/
theorem Tiles.behind_span {read span source : List Char} {spans : List (List Char)}
    {ts more : List Token} (h : Tiles (read ++ span) source spans more)
    (hspan : Stands (.behind read) span source ts) :
    Tiles read (span ++ source) (span :: spans) (ts ++ more) := by
  have htiles : Tiles read ([] ++ span ++ source) (span :: spans) (ts ++ more) :=
    .tile .nil (by rwa [List.append_nil]) (by rwa [List.append_nil])
  rwa [List.nil_append] at htiles

/-! ## The lines of a block of documentation -/

/-- A text has one piece more than separators. -/
theorem length_splitAt (sep : Char) (cs : List Char) :
    (Text.splitAt sep cs).length = cs.count sep + 1 := by
  induction cs with
  | nil => rfl
  | cons c cs ih =>
    rw [Text.splitAt, List.count_cons]
    split
    · rename_i hc
      simp [hc, ih]
    · rename_i hc
      split
      · rename_i hnil
        exact absurd hnil (Text.splitAt_ne_nil _ _)
      · rename_i piece pieces hpieces
        rw [hpieces] at ih
        simpa [hc] using ih

/-- At most one line is left out, and never the only one. -/
theorem length_dropBlankFirst (lines : List (List Char)) :
    (dropBlankFirst lines).length ≤ lines.length ∧
      (lines ≠ [] → dropBlankFirst lines ≠ []) := by
  fun_cases dropBlankFirst lines <;> simp_all

/-- A block has at least one line, and at most one for each line feed and one more. -/
theorem length_blockDocLines (content : List Char) :
    (blockDocLines content).length ≤ content.count '\n' + 1 ∧ blockDocLines content ≠ [] := by
  have hfront := length_dropBlankFirst (Text.splitAt '\n' content)
  have hback := length_dropBlankFirst (dropBlankFirst (Text.splitAt '\n' content)).reverse
  rw [List.length_reverse] at hback
  rw [length_splitAt] at hfront
  rw [blockDocLines, List.length_reverse]
  refine ⟨Nat.le_trans hback.1 hfront.1, ?_⟩
  simpa using hback.2 (by simpa using hfront.2 (Text.splitAt_ne_nil _ _))

/-- The first token of a block is at its start. -/
theorem exists_blockTokens (p : Position) (content : List Char) :
    ∃ first more, blockTokens p content = first :: more ∧ first.pos = p := by
  obtain ⟨line, lines, hlines⟩ := List.exists_cons_of_ne_nil (length_blockDocLines content).2
  refine ⟨lineToken p (line, 0), (lines.zipIdx 1).map (lineToken p), ?_, rfl⟩
  rw [blockTokens, hlines]
  rfl

/-! ## What makes a comment documentation -/

/-- What makes a comment documentation stands at its start. -/
theorem Documents.of_append {mark : Char} {again xs ys : List Char} (hne : xs ≠ [])
    (h : Documents mark again (xs ++ ys)) : Documents mark again xs := by
  obtain ⟨tail, htail, hmark⟩ := h
  obtain ⟨c, xs, rfl⟩ := List.exists_cons_of_ne_nil hne
  rw [List.cons_append, List.cons.injEq] at htail
  obtain ⟨rfl, rfl⟩ := htail
  refine ⟨xs, rfl, fun d hd => hmark d ?_⟩
  rw [List.head?_append, hd]
  rfl

/-- What follows does not change that. -/
theorem Documents.append {mark : Char} {again xs : List Char} (hlength : 2 ≤ xs.length)
    (h : Documents mark again xs) (ys : List Char) : Documents mark again (xs ++ ys) := by
  obtain ⟨_ | ⟨c, tail⟩, rfl, hmark⟩ := h
  · simp at hlength
  · exact ⟨c :: tail ++ ys, rfl, hmark⟩

/-- The characters that make a block documentation, as the reader of blocks tests them. -/
theorem documents_of_opensBlockDoc {cs : List Char} :
    Lexeme.opensBlockDoc cs ↔ Documents '*' ['*', '/'] cs := by
  constructor
  · fun_cases Lexeme.opensBlockDoc cs with
    | case1 | case2 | case4 => simp
    | case3 tail hstar hslash =>
      intro _
      refine ⟨tail, rfl, fun c hc => ?_⟩
      obtain ⟨more, rfl⟩ := List.head?_eq_some_iff.1 hc
      simp only [List.mem_cons, List.not_mem_nil, or_false, not_or]
      exact ⟨fun h => hstar more (h ▸ rfl), fun h => hslash more (h ▸ rfl)⟩
  · rintro ⟨_ | ⟨c, tail⟩, rfl, hmark⟩
    · rfl
    · have hc := hmark c rfl
      simp only [List.mem_cons, List.not_mem_nil, or_false, not_or] at hc
      simp [Lexeme.opensBlockDoc_cons_cons, hc.1, hc.2]

/-! ## Comments that give no token -/

/-- A comment that is documentation has what follows its mark as its text. -/
theorem lineShape_of_documents {content : List Char}
    (h : Documents '/' ['/'] content) :
    ∃ tail, content = '/' :: tail ∧ Lexeme.lineShape content = .lineDoc tail := by
  obtain ⟨tail, rfl, hmark⟩ := h
  refine ⟨tail, rfl, ?_⟩
  unfold Lexeme.lineShape
  split
  · rename_i heq
    cases heq
    exact absurd List.mem_cons_self (hmark '/' rfl)
  · rename_i heq
    cases heq
    rfl
  · rename_i heq
    exact absurd rfl (heq tail)

/-- Any other comment gives no token. -/
theorem lineShape_of_not_documents {content : List Char}
    (h : ¬ Documents '/' ['/'] content) : Lexeme.lineShape content = .blank := by
  unfold Lexeme.lineShape
  split
  · rfl
  · rename_i tail hslash
    refine absurd ⟨tail, rfl, fun c hc => ?_⟩ h
    obtain ⟨more, rfl⟩ := List.head?_eq_some_iff.1 hc
    exact fun hmem => hslash more (by rw [List.mem_singleton.1 hmem])
  · rfl

/-- An ordinary comment that ends with its line goes on up to a line feed, or to the end of the
source. -/
theorem gap_of_lineComment? {cs rest : List Char} {lexeme : Lexeme}
    (h : Lexeme.lineComment? cs = some (lexeme, rest)) (hblank : lexeme.shape = .blank) :
    LastGap cs ∧ rest = [] ∨ ∃ ds, rest = '\n' :: ds ∧ Gap (lexeme.text ++ ['\n']) := by
  obtain ⟨content, rfl, hcontent, rfl, hrest⟩ := Lexeme.exists_of_lineComment? h
  have hplain : ¬ Documents '/' ['/'] content := fun hdoc => by
    obtain ⟨tail, -, hshape⟩ := lineShape_of_documents hdoc
    cases hblank.symm.trans hshape
  obtain rfl | ⟨ds, rfl⟩ := hrest
  · rw [List.append_nil]
    exact .inl ⟨.line .nil hcontent hplain, rfl⟩
  · exact .inr ⟨ds, rfl, .line hcontent hplain .nil⟩

/-- An ordinary comment in block form goes on up to its delimiter, or to the end of the source. -/
theorem gap_of_blockComment? {cs rest : List Char} {lexeme : Lexeme}
    (h : Lexeme.blockComment? cs = some (lexeme, rest)) (hblank : lexeme.shape = .blank) :
    LastGap cs ∧ rest = [] ∨ Gap lexeme.text := by
  fun_cases Lexeme.blockComment? cs with
  | case1 cs hdoc body =>
    rw [Lexeme.blockComment?, if_pos hdoc] at h
    cases h
    cases hblank
  | case3 cs hother =>
    unfold Lexeme.blockComment? at h
    simp at h
  | case2 cs hdoc body =>
    rw [documents_of_opensBlockDoc] at hdoc
    rw [Lexeme.blockComment?, if_neg (mt documents_of_opensBlockDoc.1 hdoc)] at h
    cases h
    have hcs := Lexeme.blockTail_append 0 cs
    obtain hclosing | ⟨hclosing, hrest⟩ := Lexeme.closing_blockTail 0 cs
    · refine .inr ?_
      have hbody := Lexeme.commentBody_of_closing hclosing
      rw [Lexeme.text_whole, Lexeme.Enclosed.text, hclosing]
      rw [Lexeme.Enclosed.text, hclosing] at hcs
      exact .block hbody (fun hcontent => hdoc (hcs ▸ hcontent.append (by simp) _)) .nil
    · refine .inl ⟨.block .nil (fun content rest hcontent heq => ?_) hdoc, hrest⟩
      rw [heq, Lexeme.blockTail_of_commentBody hcontent, Lexeme.blockTail] at hclosing
      cases hclosing

/-! ## What the readers read -/

section Readers

variable {cs rest : List Char} {lexeme : Lexeme} (p : Position)

/-- A comment that ends with its line is documentation, or it gives no token. -/
theorem stands_of_lineComment? (h : Lexeme.lineComment? cs = some (lexeme, rest))
    (hshape : lexeme.shape ≠ .blank) : Stands p lexeme.text rest (lexeme.tokens p) := by
  obtain ⟨content, rfl, hcontent, rfl, hrest⟩ := Lexeme.exists_of_lineComment? h
  have hdoc : Documents '/' ['/'] content := by
    by_contra hplain
    exact hshape (lineShape_of_not_documents hplain)
  have hends : ∀ d ∈ rest.head?, d = '\n' := by
    obtain rfl | ⟨ds, rfl⟩ := hrest
    · rintro d ⟨⟩
    · rintro d ⟨⟩
      rfl
  obtain ⟨tail, rfl, hdocShape⟩ := lineShape_of_documents hdoc
  rw [hdocShape]
  exact .lineDoc (fun hmem => hcontent (List.mem_cons_of_mem _ hmem)) hends hdoc

/-- What is read of a comment ends with the delimiter that closes it, or with the source. -/
theorem isEnclosed_blockTail (cs : List Char) :
    IsEnclosed (Lexeme.blockTail 0 cs).content (Lexeme.blockTail 0 cs).closing
      (Lexeme.blockTail 0 cs).rest := by
  obtain hclosing | ⟨hclosing, hrest⟩ := Lexeme.closing_blockTail 0 cs
  · rw [hclosing]
    exact .closed (Lexeme.commentBody_of_closing hclosing)
  · have happend := Lexeme.blockTail_append 0 cs
    rw [Lexeme.Enclosed.text, hclosing, hrest, List.append_nil, List.append_nil] at happend
    rw [hclosing, hrest]
    refine .unclosed fun body more hbody heq => ?_
    rw [← happend, heq, Lexeme.blockTail_of_commentBody hbody, Lexeme.blockTail] at hclosing
    cases hclosing

/-- A comment in block form is documentation, or it gives no token. -/
theorem stands_of_blockComment? (h : Lexeme.blockComment? cs = some (lexeme, rest))
    (hshape : lexeme.shape ≠ .blank) : Stands p lexeme.text rest (lexeme.tokens p) := by
  fun_cases Lexeme.blockComment? cs with
  | case3 cs hother =>
    unfold Lexeme.blockComment? at h
    simp at h
  | case2 cs hdoc body =>
    rw [Lexeme.blockComment?, if_neg hdoc] at h
    cases h
    exact absurd rfl hshape
  | case1 cs hdoc body =>
    rw [Lexeme.blockComment?, if_pos hdoc] at h
    cases h
    rw [documents_of_opensBlockDoc] at hdoc
    obtain ⟨ds, rfl, hmark⟩ := hdoc
    have hds := Lexeme.blockTail_append 0 ds
    have hbehind : Documents '*' ['*', '/']
        ('*' :: (Lexeme.blockTail 0 ds).text ++ (Lexeme.blockTail 0 ds).rest) :=
      ⟨ds, by rw [List.cons_append, hds], hmark⟩
    have hspan := hbehind.of_append (List.cons_ne_nil _ _)
    obtain ⟨first, more, htokens, hfirst⟩ := exists_blockTokens p (Lexeme.blockTail 0 ds).content
    have hstands := Stands.blockDoc (isEnclosed_blockTail ds) hspan htokens hfirst
    rwa [← htokens] at hstands

/-! ### Raw literals -/

/-- A raw literal is read to its closing quote, and its token stands for the body. -/
theorem rawBehind_replicate (letters : List Char) {hashes : Nat} {body : List Char}
    (h : ¬ rawClosing hashes <:+: body) (rest : List Char) :
    Lexeme.rawBehind letters
        (List.replicate hashes '#' ++ '"' :: (body ++ (rawClosing hashes ++ rest))) =
      (⟨.token .string (Lexeme.ofRawBody body),
        letters ++ (List.replicate hashes '#' ++ '"' :: (body ++ rawClosing hashes)), false⟩,
        rest) := by
  have hrun : Lexeme.run (· == '#') (List.replicate hashes '#' ++
      '"' :: (body ++ (rawClosing hashes ++ rest))) =
        (List.replicate hashes '#', '"' :: (body ++ (rawClosing hashes ++ rest))) :=
    Lexeme.run_append_of_head? (fun x hx => beq_iff_eq.2 (List.eq_of_mem_replicate hx))
      (by simp)
  rw [Lexeme.rawBehind, hrun]
  simp only [List.length_replicate, List.drop_succ_cons, List.drop_zero,
    rawTail_of_not_infix h]
  simp [Lexeme.Enclosed.text]

/-- A raw literal, if the letters have one behind them. -/
theorem stands_rawBehind {letters : List Char} (hletters : letters = ['r'] ∨ letters = ['b', 'r'])
    (cs : List Char) (p : Position) :
    Stands p (Lexeme.rawBehind letters cs).1.text (Lexeme.rawBehind letters cs).2
      ((Lexeme.rawBehind letters cs).1.tokens p) := by
  by_cases h : ∃ literal body, IsRaw literal body ∧ literal <+: (Lexeme.rawBehind letters cs).1.text
  · obtain ⟨_, body, ⟨letters', hashes, hletters', hbody, rfl⟩, tail, htail⟩ := h
    have happend := Lexeme.rawBehind_append letters cs
    obtain ⟨rfl, hcs⟩ : letters' = letters ∧ cs = List.replicate hashes '#' ++
        '"' :: (body ++ (rawClosing hashes ++ (tail ++ (Lexeme.rawBehind letters cs).2))) := by
      rw [← htail] at happend
      rcases hletters with rfl | rfl <;> rcases hletters' with rfl | rfl
      · exact ⟨rfl, by simpa using happend.symm⟩
      · simp at happend
      · simp at happend
      · exact ⟨rfl, by simpa using happend.symm⟩
    have hread := rawBehind_replicate letters' hbody (tail ++ (Lexeme.rawBehind letters' cs).2)
    rw [← hcs] at hread
    obtain ⟨value, hvalue, hescaped⟩ := exists_ofRawBody body
    rw [hread]
    refine .raw ⟨letters', hashes, hletters', hbody, rfl⟩ ?_
    rw [hvalue]
    exact unquote_of_resolve (.inl rfl) (resolve_escaped (by simpa using hescaped))
  · have hopens : letters <+: (Lexeme.rawBehind letters cs).1.text := by
      simp [Lexeme.rawBehind]
    refine .brokenRaw ?_ fun literal body hraw hprefix => h ⟨literal, body, hraw, hprefix⟩
    rcases hletters with rfl | rfl
    · exact .inl hopens
    · exact .inr hopens

/-- Raw literals, of text or of bytes. -/
theorem stands_of_rawString? (h : Lexeme.rawString? cs = some (lexeme, rest)) :
    Stands p lexeme.text rest (lexeme.tokens p) := by
  revert h
  fun_cases Lexeme.rawString? cs <;> intro h <;> cases h
  · exact stands_rawBehind (.inl rfl) _ p
  · exact stands_rawBehind (.inr rfl) _ p

/-! ### Other literals -/

/-- What is read behind an opening quote ends with the quote that closes it, or with the source. -/
theorem isQuoted_quotedTail {quote : Char} (hquote : quote ≠ '\\') (cs : List Char) :
    IsQuoted quote (quotedTail quote cs).text (quotedTail quote cs).rest := by
  obtain hclosing | ⟨hclosing, hrest⟩ := Walk.quotedTail_closing quote cs
  · rw [Lexeme.Enclosed.text, hclosing]
    exact .closed (quotedBody_of_closing (hclosing ▸ List.cons_ne_nil _ _)).1
  · have happend := Lexeme.quotedTail_append quote cs
    rw [hrest, List.append_nil] at happend
    rw [happend, hrest]
    refine .unclosed fun body more hbody heq => ?_
    rw [heq, hbody.quotedTail_append hquote] at hclosing
    cases hclosing

/-- Bytes and strings of bytes are spans whose token leaves out the letter in front. -/
theorem stands_of_bytes? (h : Lexeme.bytes? cs = some (lexeme, rest)) :
    Stands p lexeme.text rest (lexeme.tokens p) := by
  revert h
  fun_cases Lexeme.bytes? cs <;> rintro ⟨⟩
  · exact .byteString (isQuoted_quotedTail (by decide) _)
  · exact .byte (isQuoted_quotedTail (by decide) _)

/-- Strings. -/
theorem stands_of_string? (h : Lexeme.string? cs = some (lexeme, rest)) :
    Stands p lexeme.text rest (lexeme.tokens p) := by
  revert h
  fun_cases Lexeme.string? cs <;> rintro ⟨⟩
  exact .string (isQuoted_quotedTail (by decide) _)

/-- The characters of a run go on with a word. -/
theorem forall_isWordChar_run (cs : List Char) :
    ∀ d ∈ (Lexeme.run Unicode.isWordChar cs).1, Unicode.isWordChar d :=
  fun _ hd => List.mem_takeWhile_imp hd

/-- Behind a run no word goes on. -/
theorem endsWord_run (cs : List Char) : EndsWord (Lexeme.run Unicode.isWordChar cs).2 :=
  fun _ hd => Lexeme.not_of_mem_head?_dropWhile hd

/-- A character or a lifetime, as what follows the quote decides. -/
theorem stands_of_single? (h : Lexeme.single? cs = some (lexeme, rest)) :
    Stands p lexeme.text rest (lexeme.tokens p) := by
  revert h
  fun_cases Lexeme.single? cs with
  | case1 cs hopens =>
    rintro ⟨⟩
    refine .char (isQuoted_quotedTail (by decide) cs) ?_
    rwa [Lexeme.quotedTail_append]
  | case2 cs hopens word =>
    rintro ⟨⟩
    refine .lifetime (forall_isWordChar_run cs) (endsWord_run cs) ?_
    rwa [Lexeme.run_append]
  | case3 => rintro ⟨⟩

/-! ### Words, numbers and punctuation -/

/-- The first character of a word and what a run takes behind it. -/
theorem isWord_run {c : Char} (hc : Unicode.isWordStart c) (cs : List Char) :
    Piece.isWord (c :: (Lexeme.run Unicode.isWordChar cs).1) := by
  rw [Piece.isWord, hc, Bool.true_and]
  exact List.all_takeWhile

/-- Raw words are spans whose token leaves out what stands in front of the word. -/
theorem stands_of_rawWord? (h : Lexeme.rawWord? cs = some (lexeme, rest)) :
    Stands p lexeme.text rest (lexeme.tokens p) := by
  revert h
  fun_cases Lexeme.rawWord? cs with
  | case1 c cs hc word =>
    have hword : word = (c :: (Lexeme.run Unicode.isWordChar cs).1, _) :=
      Lexeme.run_word_cons (Unicode.isWordChar_of_isWordStart hc) cs
    rw [hword]
    rintro ⟨⟩
    exact .rawWord (isWord_run hc cs) (endsWord_run cs)
  | case2 | case3 => rintro ⟨⟩

/-- A number is the longest numeral. -/
theorem stands_of_number? (h : Lexeme.number? cs = some (lexeme, rest)) :
    Stands p lexeme.text rest (lexeme.tokens p) := by
  revert h
  fun_cases Lexeme.number? cs with
  | case2 c cs hc more =>
    rintro ⟨⟩
    exact .number (isNumeral_numberRest hc cs) fun _ => eq_nil_of_isNumeral_append
  | case1 | case3 => rintro ⟨⟩

/-- Letters that announce another lexeme are read with it. -/
theorem not_announces {text : List Char} (htext : text ++ rest = cs)
    (hraw : Lexeme.rawString? cs = none) (hbytes : Lexeme.bytes? cs = none)
    (hrawWord : Lexeme.rawWord? cs = none) : ¬ Announces text rest := by
  subst htext
  rintro (h | h | - | - | h)
  · simp [Lexeme.rawString?, h] at hraw
  · simp [Lexeme.rawString?, h] at hraw
  · cases hbytes
  · cases hbytes
  · simp [Lexeme.rawWord?, h] at hrawWord

/-- A word that announces nothing: raw literals, bytes and raw words are read before it. -/
theorem stands_of_word? (h : Lexeme.word? cs = some (lexeme, rest))
    (hraw : Lexeme.rawString? cs = none) (hbytes : Lexeme.bytes? cs = none)
    (hrawWord : Lexeme.rawWord? cs = none) : Stands p lexeme.text rest (lexeme.tokens p) := by
  revert h
  fun_cases Lexeme.word? cs with
  | case2 c cs hc more =>
    rintro ⟨⟩
    have happend : c :: more.1 ++ more.2 = c :: cs :=
      congrArg (c :: ·) (Lexeme.run_append Unicode.isWordChar cs)
    exact .word (isWord_run hc cs) (endsWord_run cs) (not_announces happend hraw hbytes hrawWord)
  | case1 | case3 => rintro ⟨⟩

/-- Punctuation of two characters. -/
theorem stands_of_pair? (h : Lexeme.pair? cs = some (lexeme, rest)) :
    Stands p lexeme.text rest (lexeme.tokens p) := by
  revert h
  fun_cases Lexeme.pair? cs with
  | case1 c d cs =>
    intro h
    obtain ⟨kind, hkind, heq⟩ := Option.map_eq_some_iff.1 h
    cases heq
    exact .pair hkind
  | case2 => rintro ⟨⟩

/-- A mark that is no part of a pair and opens no comment stands alone. -/
theorem alone_of_readers {c : Char} (hline : Lexeme.lineComment? (c :: cs) = none)
    (hblock : Lexeme.blockComment? (c :: cs) = none) (hpair : Lexeme.pair? (c :: cs) = none) :
    ∀ d ∈ cs.head?, Kind.ofPair? c d = none ∧ (c = '/' → d ≠ '/' ∧ d ≠ '*') := by
  intro d hd
  obtain ⟨ds, rfl⟩ := List.head?_eq_some_iff.1 hd
  rw [Lexeme.pair?, Option.map_eq_none_iff] at hpair
  refine ⟨hpair, ?_⟩
  rintro rfl
  constructor
  · rintro rfl
    cases hline
  · rintro rfl
    rw [Lexeme.blockComment?] at hblock
    split at hblock <;> cases hblock

end Readers

/-- A lexeme is layout, a comment, or a span with its tokens. What a reader is known by is also what
the readers before it have left to it. -/
theorem cases_of_first? {cs rest : List Char} {lexeme : Lexeme}
    (h : Lexeme.first? cs = some (lexeme, rest)) (p : Position) :
    Lexeme.layout? cs = some (lexeme, rest) ∨ Lexeme.lineComment? cs = some (lexeme, rest) ∨
      Lexeme.blockComment? cs = some (lexeme, rest) ∨
        Stands p lexeme.text rest (lexeme.tokens p) := by
  simp only [Lexeme.first?, Lexeme.readers, findSome?_cons_eq_some_iff, List.findSome?_nil,
    reduceCtorEq, and_false, or_false] at h
  obtain h | ⟨hlayout, h | ⟨hline, h | ⟨hblock, h⟩⟩⟩ := h
  · exact .inl h
  · exact .inr (.inl h)
  · exact .inr (.inr (.inl h))
  refine .inr (.inr (.inr ?_))
  obtain h | ⟨hraw, h | ⟨hbytes, h | ⟨hrawWord, h⟩⟩⟩ := h
  · exact stands_of_rawString? p h
  · exact stands_of_bytes? p h
  · exact stands_of_rawWord? p h
  obtain h | ⟨hstring, h | ⟨hsingle, h | ⟨hnumber, h | ⟨hword, h | ⟨hpair, h⟩⟩⟩⟩⟩ := h
  · exact stands_of_string? p h
  · exact stands_of_single? p h
  · exact stands_of_number? p h
  · exact stands_of_word? p h hraw hbytes hrawWord
  · exact stands_of_pair? p h
  · cases cs with
    | nil => cases h
    | cons c cs =>
      cases h
      exact .mark (isMark_of_readers hlayout hstring hsingle hnumber hword)
        (alone_of_readers hline hblock hpair)

/-- What is read as layout starts with a character of layout and gives no token. -/
theorem exists_of_layout? {cs rest : List Char} {lexeme : Lexeme}
    (h : Lexeme.layout? cs = some (lexeme, rest)) :
    lexeme.shape = .blank ∧ ∃ c ds, cs = c :: ds ∧ Lexeme.isLayout c := by
  revert h
  fun_cases Lexeme.layout? cs with
  | case2 c cs hc =>
    rintro ⟨⟩
    exact ⟨rfl, c, cs, rfl, hc⟩
  | case1 | case3 => rintro ⟨⟩

/-- **A lexeme is a span with its tokens**, or layout or an ordinary comment. -/
theorem stands_of_first? {cs rest : List Char} {lexeme : Lexeme}
    (h : Lexeme.first? cs = some (lexeme, rest)) (hshape : lexeme.shape ≠ .blank) (p : Position) :
    Stands p lexeme.text rest (lexeme.tokens p) := by
  obtain hlayout | hline | hblock | hstands := cases_of_first? h p
  · exact absurd (exists_of_layout? hlayout).1 hshape
  · exact stands_of_lineComment? p hline hshape
  · exact stands_of_blockComment? p hblock hshape
  · exact hstands

/-- A span gives at least one token. -/
theorem Stands.ne_nil {p : Position} {span rest : List Char} {ts : List Token}
    (h : Stands p span rest ts) : ts ≠ [] := by
  cases h <;> exact List.cons_ne_nil _ _

/-! ## A source -/

/-- The texts of a source that give tokens. -/
def spans (cs : List Char) : List (List Char) :=
  ((lexemes cs).filter (·.shape ≠ .blank)).map (·.text)

/-- The spans of a source are that of its first lexeme, if it gives tokens, and those of the
rest. -/
theorem spans_of_first? {cs rest : List Char} {lexeme : Lexeme}
    (h : Lexeme.first? cs = some (lexeme, rest)) :
    spans cs = (if lexeme.shape = .blank then [] else [lexeme.text]) ++ spans rest := by
  rw [spans, lexemes_of_first? h, List.filter_cons]
  by_cases hblank : lexeme.shape = .blank
  · simp [hblank, spans]
  · simp [hblank, spans]

/-- Layout in front of a source is in no span. -/
theorem spans_layout {c : Char} (hc : Lexeme.isLayout c) (cs : List Char) :
    spans (c :: cs) = spans cs := by
  have hrun {d : Char} (hd : Lexeme.isLayout d) (ds : List Char) :
      spans (d :: ds) = spans (ds.dropWhile Lexeme.isLayout) := by
    rw [spans_of_first? (first?_of_isLayout hd ds)]
    rfl
  rw [hrun hc]
  cases cs with
  | nil => rfl
  | cons d ds =>
    by_cases hd : Lexeme.isLayout d
    · rw [hrun hd, List.dropWhile_cons_of_pos hd]
    · rw [List.dropWhile_cons_of_neg hd]

/-- Layout and ordinary comments give no tokens. -/
theorem tokens_of_blank {lexeme : Lexeme} (hblank : lexeme.shape = .blank) (p : Position) :
    lexeme.tokens p = [] := by
  rw [Lexeme.tokens, hblank]

/-- Where a source starts with no span, it starts with a gap and its spans are behind that; or the
source ends in what it starts with. -/
theorem gap_of_blank {cs rest : List Char} {lexeme : Lexeme}
    (h : Lexeme.first? cs = some (lexeme, rest)) (hblank : lexeme.shape = .blank) :
    LastGap cs ∧ rest = [] ∨ ∃ gap ds, cs = gap ++ ds ∧ gap ≠ [] ∧ Gap gap ∧
      spans cs = spans ds ∧ ∀ p, (TokenStream.ofSource p cs).tokens =
        (TokenStream.ofSource (p.after gap) ds).tokens := by
  have hspans : spans cs = spans rest := by
    rw [spans_of_first? h, if_pos hblank, List.nil_append]
  have htokens (p : Position) : (TokenStream.ofSource p cs).tokens =
      (TokenStream.ofSource (p.after lexeme.text) rest).tokens := by
    rw [TokenStream.tokens_ofSource h, tokens_of_blank hblank, List.nil_append]
  obtain ⟨htext, hne⟩ := Lexeme.first?_faithful h
  obtain hlayout | hline | hblock | hstands := cases_of_first? h .start
  · obtain ⟨-, c, ds, rfl, hc⟩ := exists_of_layout? hlayout
    refine .inr ⟨[c], ds, rfl, List.cons_ne_nil _ _, .layout ?_ .nil, spans_layout hc ds,
      fun p => ?_⟩
    · simpa [Lexeme.isLayout, or_assoc] using hc
    · rw [TokenStream.ofSource_layout hc]
      rfl
  · obtain hlast | ⟨ds, rfl, hgap⟩ := gap_of_lineComment? hline hblank
    · exact .inl hlast
    · refine .inr ⟨lexeme.text ++ ['\n'], ds, by simpa using htext.symm, by simp, hgap, ?_,
        fun p => ?_⟩
      · rw [hspans, spans_layout rfl]
      · rw [htokens, TokenStream.ofSource_layout rfl, Position.after_append]
        rfl
  · obtain hlast | hgap := gap_of_blockComment? hblock hblank
    · exact .inl hlast
    · exact .inr ⟨lexeme.text, rest, htext.symm, hne, hgap, hspans, htokens⟩
  · exact absurd (tokens_of_blank hblank .start) hstands.ne_nil

/-- **The spans of a text behind another one tile it.** -/
theorem tiles_ofSource (read cs : List Char) :
    Tiles read cs (spans cs) (TokenStream.ofSource (.behind read) cs).tokens := by
  induction hn : cs.length using Nat.strong_induction_on generalizing read cs with
  | _ n ih =>
    cases hfirst : Lexeme.first? cs with
    | none =>
      obtain rfl := Lexeme.first?_eq_none_iff.1 hfirst
      rw [TokenStream.ofSource_nil, spans, lexemes_nil]
      exact .last (.gap .nil)
    | some r =>
      obtain ⟨lexeme, rest⟩ := r
      by_cases hblank : lexeme.shape = .blank
      · obtain ⟨hlast, rfl⟩ | ⟨gap, ds, rfl, hne, hgap, hspans, htokens⟩ :=
          gap_of_blank hfirst hblank
        · rw [spans_of_first? hfirst, if_pos hblank, TokenStream.tokens_ofSource hfirst,
            tokens_of_blank hblank, TokenStream.ofSource_nil, spans, lexemes_nil]
          exact .last hlast
        · have hlength := List.length_pos_iff.2 hne
          rw [List.length_append] at hn
          rw [hspans, htokens, Position.behind_after]
          exact .behind_gap hgap (ih ds.length (by omega) (read ++ gap) ds rfl)
      · have htext := Lexeme.text_append_of_first? hfirst
        have hlength := Lexeme.length_lt_of_first? hfirst
        have hspan := stands_of_first? hfirst hblank (.behind read)
        have hrest := ih rest.length (by omega) (read ++ lexeme.text) rest rfl
        rw [spans_of_first? hfirst, if_neg hblank, TokenStream.tokens_ofSource hfirst,
          Position.behind_after, ← htext]
        exact hrest.behind_span hspan

/-! ## The numbers among the tokens -/

/-- A span that gives a number is a numeral, and the number has its text. -/
theorem Stands.isNumeral {p : Position} {span rest : List Char} {ts : List Token}
    (h : Stands p span rest ts) {t : Token} (ht : t ∈ ts) (hkind : t.kind = .number) :
    isNumeral t.text.toList := by
  cases h with
  | number h =>
    obtain rfl := List.mem_singleton.1 ht
    rwa [String.toList_ofList]
  | mark =>
    obtain rfl := List.mem_singleton.1 ht
    exact absurd hkind (ofMark_ne_number _)
  | pair h =>
    obtain rfl := List.mem_singleton.1 ht
    exact absurd (h.trans (congrArg some hkind)) (ofPair?_ne_number _ _)
  | word =>
    obtain rfl := List.mem_singleton.1 ht
    exact absurd hkind (ofWord_ne_number _)
  | blockDoc hcontent hdoc htokens hfirst =>
    rw [← htokens] at ht
    obtain ⟨line, -, rfl⟩ := List.mem_map.1 ht
    cases hkind
  | _ =>
    obtain rfl := List.mem_singleton.1 ht
    cases hkind

/-- The numbers among the tokens of a text are numerals. -/
theorem Tiles.isNumeral {read source : List Char} {spans : List (List Char)} {ts : List Token}
    (h : Tiles read source spans ts) :
    ∀ t ∈ ts, t.kind = .number → Rust.isNumeral t.text.toList := by
  induction h with
  | last => simp
  | tile hgap hspan h ih =>
    intro t ht hkind
    rcases List.mem_append.1 ht with ht | ht
    · exact hspan.isNumeral ht hkind
    · exact ih t ht hkind

/-- **The numbers among the tokens of a source are numerals.** -/
theorem isNumeral_of_mem_tokenize {source : String} {t : Token}
    (h : t ∈ (tokenize source).tokens) (hkind : t.kind = .number) : isNumeral t.text.toList :=
  (tiles_ofSource [] source.toList).isNumeral t h hkind

/-! ## The lines of the tokens -/

/-- The tokens of a block are on consecutive lines. -/
theorem lines_blockTokens (p : Position) (content : List Char) :
    (blockTokens p content).map (·.pos.line) =
      (List.range (blockDocLines content).length).map (p.line + ·) := by
  rw [blockTokens, List.map_map, List.range_eq_range', ← List.zipIdx_map_snd, List.map_map]
  rfl

/-- The tokens of a span are on its lines, none above the one before it. -/
theorem Stands.lines {p : Position} {span rest : List Char} {ts : List Token}
    (h : Stands p span rest ts) :
    (∀ t ∈ ts, p.line ≤ t.pos.line ∧ t.pos.line ≤ (p.after span).line) ∧
      (ts.map (·.pos.line)).Pairwise (· ≤ ·) := by
  cases h with
  | @blockDoc content closing _ first more hcontent hdoc htokens hfirst =>
    rw [← htokens]
    have hlines := lines_blockTokens p content
    refine ⟨fun t ht => ?_, ?_⟩
    · have hline : t.pos.line ∈ (blockTokens p content).map (·.pos.line) :=
        List.mem_map_of_mem ht
      rw [hlines, List.mem_map] at hline
      obtain ⟨i, hi, hline⟩ := hline
      have hcount := (length_blockDocLines content).1
      rw [List.mem_range] at hi
      have hspan : content.count '\n' ≤
          ('/' :: '*' :: '*' :: (content ++ closing)).count '\n' := by
        simp [List.count_append]
      rw [Position.line_after]
      omega
    · rw [hlines, List.pairwise_map]
      exact List.pairwise_lt_range.imp fun hlt => Nat.add_le_add_left (Nat.le_of_lt hlt) _
  | _ =>
    exact ⟨List.forall_mem_singleton.2 ⟨Nat.le_refl _, Position.line_le_after p _⟩,
      List.pairwise_singleton _ _⟩

/-- The tokens of a text behind another one are on its lines, none above the one before it. -/
theorem Tiles.lines {read source : List Char} {spans : List (List Char)} {ts : List Token}
    (h : Tiles read source spans ts) :
    (∀ t ∈ ts, (Position.behind read).line ≤ t.pos.line ∧
      t.pos.line ≤ (Position.behind (read ++ source)).line) ∧
        (ts.map (·.pos.line)).Pairwise (· ≤ ·) := by
  induction h with
  | last => simp
  | @tile read gap span rest spans ts more hgap hspan h ih =>
    obtain ⟨hspanLines, hspanOrder⟩ := hspan.lines
    obtain ⟨hmoreLines, hmoreOrder⟩ := ih
    have hstart : (Position.behind read).line ≤ (Position.behind (read ++ gap)).line := by
      rw [← Position.behind_after]
      exact Position.line_le_after _ _
    rw [Position.behind_after] at hspanLines
    have hmiddle : (Position.behind (read ++ gap)).line ≤
        (Position.behind (read ++ gap ++ span)).line := by
      rw [← Position.behind_after (read ++ gap)]
      exact Position.line_le_after _ _
    have hend : (Position.behind (read ++ gap ++ span)).line ≤
        (Position.behind (read ++ gap ++ span ++ rest)).line := by
      rw [← Position.behind_after (read ++ gap ++ span)]
      exact Position.line_le_after _ _
    have htext : read ++ (gap ++ span ++ rest) = read ++ gap ++ span ++ rest := by simp
    rw [htext]
    refine ⟨fun t ht => ?_, ?_⟩
    · rcases List.mem_append.1 ht with ht | ht
      · have := hspanLines t ht
        omega
      · have := hmoreLines t ht
        omega
    · rw [List.map_append, List.pairwise_append]
      refine ⟨hspanOrder, hmoreOrder, ?_⟩
      simp only [List.forall_mem_map]
      exact fun t ht u hu => Nat.le_trans (hspanLines t ht).2 (hmoreLines u hu).1

end Rust
end Ferrotype

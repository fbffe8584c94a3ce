/-
# The walk over a source

A turn of the lexer takes the layout that comes next and one more lexeme, as far as the source goes.
Which lexeme it is shows in the first characters; a scanner looks at them and gives the walk over
the lexeme. Each scanner belongs to a reader (`Scans`), and the walk over a source takes every
character once and gives the lexemes (`passes_walkLexemes`).
-/

import Mathlib.Data.List.Forall2
import Ferrotype.Proofs.Rust.Walk.Char

namespace Ferrotype
namespace Rust

open Cursor

namespace Walk

open Lexeme

/-- The walk over a lexeme that the first characters of a text announce. -/
abbrev Scanner := List Char → Option (CharCursor Lexeme)

/-! ## The scanners -/

/-- The shape of a comment that ends with its line. -/
def lineShape (cs content : List Char) : Shape :=
  match cs with
  | '/' :: '/' :: _ => .blank
  | '/' :: _ => .lineDoc (content.drop 1)
  | _ => .blank

/-- A comment that ends with its line. -/
def lineComment : Scanner
  | '/' :: '/' :: cs => some do
    let opening ← takeAll ['/', '/']
    let content ← readRun (· != '\n') ()
    pure (whole (lineShape cs content) (opening ++ content))
  | _ => none

/-- A comment between delimiters. -/
def blockComment : Scanner
  | '/' :: '*' :: cs =>
    if opensBlockDoc cs then some do
      let opening ← takeAll ('/' :: '*' :: cs.take 1)
      let body ← readBlock 1
      pure (whole (.blockDoc body.1) (opening ++ (body.1 ++ body.2)))
    else some do
      let opening ← takeAll ['/', '*']
      let body ← readBlock 1
      pure (whole .blank (opening ++ (body.1 ++ body.2)))
  | _ => none

/-- A raw literal behind the letters that announce it. -/
def readRawBehind (letters : List Char) : CharCursor Lexeme := do
  let letters ← takeAll letters
  let hashes ← readRun (· == '#') ()
  let quote ← take
  let body ← readRaw hashes.length ()
  pure ⟨.token .string (ofRawBody body.1), letters ++ hashes ++ quote ++ (body.1 ++ body.2),
    quote.isEmpty⟩

/-- A raw literal, of text or of bytes. -/
def rawString : Scanner
  | 'r' :: cs => if opensRaw cs then some (readRawBehind ['r']) else none
  | 'b' :: 'r' :: cs => if opensRawBytes cs then some (readRawBehind ['b', 'r']) else none
  | _ => none

/-- A literal with its quotes behind letters that are no part of the token. -/
def readQuotedBehind (kind : Kind) (letters : List Char) (quote : Char) : CharCursor Lexeme := do
  let letters ← takeAll letters
  let opening ← take
  let content ← readQuoted quote ()
  let closing ← takeIf quote
  pure ⟨.token kind (opening ++ (content ++ closing)), letters ++ (opening ++ (content ++ closing)),
    closing.isEmpty && endsInEscape content⟩

/-- A byte or a byte string. -/
def bytes : Scanner
  | 'b' :: '"' :: _ => some (readQuotedBehind .string ['b'] '"')
  | 'b' :: '\'' :: _ => some (readQuotedBehind .char ['b'] '\'')
  | _ => none

/-- A raw identifier. -/
def rawWord : Scanner
  | 'r' :: '#' :: c :: _ =>
    if Unicode.isWordStart c then some do
      let opening ← takeAll ['r', '#']
      let word ← readRun Unicode.isWordChar ()
      pure (whole (.token .identifier word) (opening ++ word))
    else none
  | _ => none

/-- A string literal. -/
def string : Scanner
  | '"' :: _ => some (readQuotedBehind .string [] '"')
  | _ => none

/-- A character literal or a lifetime. -/
def single : Scanner
  | '\'' :: cs =>
    if opensChar cs then some (readQuotedBehind .char [] '\'')
    else some do
      let quote ← take
      let word ← readRun Unicode.isWordChar ()
      pure (whole (.token .lifetime (quote ++ word)) (quote ++ word))
  | _ => none

/-- A number with its suffix. -/
def number : Scanner
  | [] => none
  | c :: _ =>
    if Unicode.isDigit c then some do
      let first ← take
      let more ← readNumber c
      pure (whole (.token .number (first ++ more)) (first ++ more))
    else none

/-- An identifier or a keyword. -/
def word : Scanner
  | [] => none
  | c :: _ =>
    if Unicode.isWordStart c then some do
      let first ← take
      let more ← readRun Unicode.isWordChar ()
      pure (whole (.token (Kind.ofWord (first ++ more)) (first ++ more)) (first ++ more))
    else none

/-- Punctuation of two characters. -/
def pair : Scanner
  | c :: d :: _ => (Kind.ofPair? c d).map fun kind => do
    let marks ← takeAll [c, d]
    pure (whole (.token kind marks) marks)
  | _ => none

/-- Any other character. -/
def mark : Scanner
  | [] => none
  | c :: _ => some do
    let marks ← take
    pure (whole (.token (Kind.ofMark c) marks) marks)

/-- The scanners in the order in which they are tried. -/
def scanners : List Scanner :=
  [lineComment, blockComment, rawString, bytes, rawWord, string, single, number, word, pair, mark]

/-- The walk over the lexeme that comes next, unless it is layout or nothing comes. -/
def scan (cs : List Char) : Option (CharCursor Lexeme) := scanners.findSome? (· cs)

/-! ## The main loop -/

/-- A run of layout, if one comes next. -/
def walkLayout : CharCursor (List Lexeme) := do
  let blank ← readRun isLayout ()
  pure (if blank = [] then [] else [whole .blank blank])

/-- The lexemes of a source: in each turn layout, if some comes next, and one more lexeme. -/
def walkLexemes : Unit → CharCursor (List Lexeme) :=
  looping (fun _ cs => !cs.isEmpty)
    (fun again _ => do
      let blank ← walkLayout
      match scan (← look) with
      | none => pure blank
      | some walk => do
        let lexeme ← walk
        let more ← again ()
        pure (blank ++ lexeme :: more))
    fun _ => []

/-! ## The scanners and the readers -/

/-- A scanner announces what a reader reads, and its walk takes just that. -/
def Scans (scanner : Scanner) (reader : Reader) : Prop :=
  ∀ cs, Option.Rel (fun walk read => Passes walk cs read.1 read.2) (scanner cs) (reader cs)

/-- Comments that end with their line. -/
theorem scans_lineComment : Scans lineComment lineComment? := by
  intro cs
  fun_cases lineComment cs with
  | case1 cs =>
    refine .some ((passes_takeAll ['/', '/'] cs).bind ?_)
    exact (passes_readRun _ cs).bind (passes_pure _ _)
  | case2 cs hne =>
    have hnone : lineComment? cs = none := by
      unfold lineComment?
      split
      · exact (hne _ rfl).elim
      · rfl
    exact hnone ▸ .none

/-- Comments in block form, of documentation and others. -/
theorem scans_blockComment : Scans blockComment blockComment? := by
  intro cs
  fun_cases blockComment cs with
  | case1 cs hdoc =>
    rw [blockComment?, if_pos hdoc]
    have hopening : Passes (takeAll ('/' :: '*' :: cs.take 1) : CharCursor (List Char))
        ('/' :: '*' :: (cs.take 1 ++ cs.drop 1)) ('/' :: '*' :: cs.take 1) (cs.drop 1) :=
      passes_takeAll _ _
    rw [List.take_append_drop] at hopening
    exact .some (hopening.bind ((passes_readBlock 0 _).bind (passes_pure _ _)))
  | case2 cs hdoc =>
    rw [blockComment?, if_neg hdoc]
    refine .some ((passes_takeAll ['/', '*'] cs).bind ?_)
    exact (passes_readBlock 0 cs).bind (passes_pure _ _)
  | case3 cs hne =>
    have hnone : blockComment? cs = none := by
      unfold blockComment?
      split
      · exact (hne _ rfl).elim
      · rfl
    exact hnone ▸ .none

/-- A raw literal behind its letters. -/
theorem passes_readRawBehind (letters cs : List Char) :
    Passes (readRawBehind letters) (letters ++ cs) (rawBehind letters cs).1
      (rawBehind letters cs).2 := by
  refine (passes_takeAll letters cs).bind ((passes_readRun _ cs).bind ?_)
  rw [rawBehind]
  cases (run (· == '#') cs).2 with
  | nil => exact passes_take_nil.bind ((passes_readRaw _ []).bind (passes_pure _ _))
  | cons c rest => exact (passes_take c rest).bind ((passes_readRaw _ rest).bind (passes_pure _ _))

/-- Raw literals, of text and of bytes. -/
theorem scans_rawString : Scans rawString rawString? := by
  intro cs
  fun_cases rawString cs with
  | case1 cs hopens =>
    rw [rawString?, if_pos hopens]
    exact .some (passes_readRawBehind ['r'] cs)
  | case2 cs hopens =>
    rw [rawString?, if_neg hopens]
    exact .none
  | case3 cs hopens =>
    rw [rawString?, if_pos hopens]
    exact .some (passes_readRawBehind ['b', 'r'] cs)
  | case4 cs hopens =>
    rw [rawString?, if_neg hopens]
    exact .none
  | case5 cs hr hbr =>
    have hnone : rawString? cs = none := by
      unfold rawString?
      split
      · exact (hr _ rfl).elim
      · exact (hbr _ rfl).elim
      · rfl
    exact hnone ▸ .none

/-- A quoted literal ends at its quote or at the end of the source. -/
theorem quotedTail_closing (quote : Char) (cs : List Char) :
    (quotedTail quote cs).closing = [quote] ∨
      (quotedTail quote cs).closing = [] ∧ (quotedTail quote cs).rest = [] := by
  fun_induction quotedTail quote cs with
  | case1 => exact .inr ⟨rfl, rfl⟩
  | case2 => exact .inr ⟨rfl, rfl⟩
  | case3 c cs ih => exact ih
  | case4 cs => exact .inl rfl
  | case5 c cs hlast hescape hc ih => exact ih

/-- The quote that closes a literal, if there is one. -/
theorem passes_closing (quote : Char) (cs : List Char) :
    Passes (takeIf quote) ((quotedTail quote cs).closing ++ (quotedTail quote cs).rest)
      (quotedTail quote cs).closing (quotedTail quote cs).rest := by
  obtain hquote | ⟨hnone, hrest⟩ := quotedTail_closing quote cs
  · rw [hquote]
    exact passes_takeIf quote _
  · rw [hnone, hrest]
    exact passes_takeIf_of_ne (Option.some_ne_none quote).symm

/-- A literal behind its letters. -/
theorem passes_readQuotedBehind {quote : Char} (hquote : quote ≠ '\\') (kind : Kind)
    (letters cs : List Char) :
    Passes (readQuotedBehind kind letters quote) (letters ++ quote :: cs)
      (quotedBehind kind letters quote cs).1 (quotedBehind kind letters quote cs).2 := by
  refine (passes_takeAll letters _).bind ((passes_take quote cs).bind ?_)
  exact (passes_readQuoted hquote cs).bind ((passes_closing quote cs).bind (passes_pure _ _))

/-- Bytes and strings of bytes. -/
theorem scans_bytes : Scans bytes bytes? := by
  intro cs
  fun_cases bytes cs with
  | case1 cs => exact .some (passes_readQuotedBehind (by decide) .string ['b'] cs)
  | case2 cs => exact .some (passes_readQuotedBehind (by decide) .char ['b'] cs)
  | case3 cs hstring hchar =>
    have hnone : bytes? cs = none := by
      unfold bytes?
      split
      · exact (hstring _ rfl).elim
      · exact (hchar _ rfl).elim
      · rfl
    exact hnone ▸ .none

/-- Raw words. -/
theorem scans_rawWord : Scans rawWord rawWord? := by
  intro cs
  fun_cases rawWord cs with
  | case1 c cs hstart =>
    rw [rawWord?, if_pos hstart]
    refine .some ((passes_takeAll ['r', '#'] (c :: cs)).bind ?_)
    exact (passes_readRun _ _).bind (passes_pure _ _)
  | case2 c cs hstart =>
    rw [rawWord?, if_neg hstart]
    exact .none
  | case3 cs hne =>
    have hnone : rawWord? cs = none := by
      unfold rawWord?
      split
      · exact (hne _ _ rfl).elim
      · rfl
    exact hnone ▸ .none

/-- Strings. -/
theorem scans_string : Scans string string? := by
  intro cs
  fun_cases string cs with
  | case1 cs => exact .some (passes_readQuotedBehind (by decide) .string [] cs)
  | case2 cs hne =>
    have hnone : string? cs = none := by
      unfold string?
      split
      · exact (hne _ rfl).elim
      · rfl
    exact hnone ▸ .none

/-- Characters and lifetimes. -/
theorem scans_single : Scans single single? := by
  intro cs
  fun_cases single cs with
  | case1 cs hopens =>
    rw [single?, if_pos hopens]
    exact .some (passes_readQuotedBehind (by decide) .char [] cs)
  | case2 cs hopens =>
    rw [single?, if_neg hopens]
    refine .some ((passes_take _ cs).bind ?_)
    exact (passes_readRun _ cs).bind (passes_pure _ _)
  | case3 cs hne =>
    have hnone : single? cs = none := by
      unfold single?
      split
      · exact (hne _ rfl).elim
      · rfl
    exact hnone ▸ .none

/-- Numbers. -/
theorem scans_number : Scans number number? := by
  intro cs
  fun_cases number cs with
  | case1 => exact .none
  | case2 c cs hdigit =>
    rw [number?, if_pos hdigit]
    refine .some ((passes_take c cs).bind ?_)
    exact (passes_readNumber c cs).bind (passes_pure _ _)
  | case3 c cs hdigit =>
    rw [number?, if_neg hdigit]
    exact .none

/-- Words. -/
theorem scans_word : Scans word word? := by
  intro cs
  fun_cases word cs with
  | case1 => exact .none
  | case2 c cs hstart =>
    rw [word?, if_pos hstart]
    refine .some ((passes_take c cs).bind ?_)
    exact (passes_readRun _ cs).bind (passes_pure _ _)
  | case3 c cs hstart =>
    rw [word?, if_neg hstart]
    exact .none

/-- Punctuation of two characters. -/
theorem scans_pair : Scans pair pair? := by
  intro cs
  fun_cases pair cs with
  | case1 c d cs =>
    rw [pair?]
    cases Kind.ofPair? c d with
    | none => exact .none
    | some kind => exact .some ((passes_takeAll [c, d] cs).bind (passes_pure _ _))
  | case2 cs hne =>
    have hnone : pair? cs = none := by
      unfold pair?
      split
      · exact (hne _ _ _ rfl).elim
      · rfl
    exact hnone ▸ .none

/-- Any other character. -/
theorem scans_mark : Scans mark mark? := by
  intro cs
  fun_cases mark cs with
  | case1 => exact .none
  | case2 c cs => exact .some ((passes_take c cs).bind (passes_pure _ _))

/-- Of scanners that go with readers, the first one that answers goes with the first reader that
does. -/
theorem scans_findSome? {scanners : List Scanner} {readers : List Reader}
    (h : List.Forall₂ Scans scanners readers) (cs : List Char) :
    Option.Rel (fun walk read => Passes walk cs read.1 read.2) (scanners.findSome? (· cs))
      (readers.findSome? (· cs)) := by
  induction h with
  | nil => exact .none
  | @cons scanner reader scanners readers hscans hrest ih =>
    rw [List.findSome?_cons, List.findSome?_cons]
    have hcs := hscans cs
    generalize scanner cs = announced at hcs ⊢
    generalize reader cs = read at hcs ⊢
    cases hcs with
    | none => exact ih
    | some hpasses => exact .some hpasses

/-- The scanners go with the readers behind the one for layout. -/
theorem scans_scanners : List.Forall₂ Scans scanners (readers.drop 1) :=
  .cons scans_lineComment <| .cons scans_blockComment <| .cons scans_rawString <|
    .cons scans_bytes <| .cons scans_rawWord <| .cons scans_string <| .cons scans_single <|
    .cons scans_number <| .cons scans_word <| .cons scans_pair <| .cons scans_mark .nil

/-! ## The lexemes of a source -/

/-- No layout is left behind a run of it. -/
theorem layout?_run (cs : List Char) : layout? (run isLayout cs).2 = none := by
  induction cs with
  | nil => rfl
  | cons c cs ih =>
    by_cases hc : isLayout c
    · simpa [run, hc] using ih
    · simp [run, hc, layout?]

/-- A run of layout is one lexeme. -/
theorem lexemes_layout (cs : List Char) :
    lexemes cs = (if (run isLayout cs).1 = [] then [] else [whole .blank (run isLayout cs).1]) ++
      lexemes (run isLayout cs).2 := by
  cases cs with
  | nil => simp [run]
  | cons c cs =>
    by_cases hc : isLayout c
    · have hfirst : first? (c :: cs) =
          some (whole .blank (c :: (run isLayout cs).1), (run isLayout cs).2) := by
        simp [first?, readers, layout?, hc]
      rw [lexemes_of_first? hfirst]
      simp [run, hc]
    · simp [run, hc]

/-- Layout in front of a lexeme is one run. -/
theorem passes_walkLayout (cs : List Char) :
    Passes walkLayout cs
      (if (run isLayout cs).1 = [] then [] else [whole .blank (run isLayout cs).1])
      (run isLayout cs).2 :=
  (passes_readRun isLayout cs).bind (passes_pure _ _)

/-- Where no layout comes next, the lexeme that comes next is the one that a scanner announces. -/
theorem scans_first {cs : List Char} (h : layout? cs = none) :
    Option.Rel (fun walk read => Passes walk cs read.1 read.2) (scan cs) (first? cs) := by
  have hfirst : first? cs = (readers.drop 1).findSome? (· cs) := by
    simp [first?, readers, h]
  rw [hfirst]
  exact scans_findSome? scans_scanners cs

/-- **The walk over a source takes every character once and gives the lexemes.** -/
theorem passes_walkLexemes (cs : List Char) : Passes (walkLexemes ()) cs (lexemes cs) [] := by
  cases hcs : cs with
  | nil =>
    rw [lexemes_nil]
    exact passes_leave rfl
  | cons c tail =>
    rw [← hcs]
    have hblank := passes_walkLayout cs
    rw [lexemes_layout cs]
    have hscan := scans_first (layout?_run cs)
    have hle : (run isLayout cs).2.length ≤ cs.length := hblank.suffix.length_le
    refine passes_turn (by simp [hcs]) (hblank.bind (passes_look ?_)) (by simp [hcs])
    generalize (run isLayout cs).2 = rest at hscan hle ⊢
    generalize scan rest = announced at hscan ⊢
    cases hfirst : first? rest with
    | none =>
      rw [hfirst] at hscan
      cases hscan with
      | none =>
        rw [first?_eq_none_iff.1 hfirst, lexemes_nil, List.append_nil]
        exact passes_pure _ []
    | some read =>
      obtain ⟨lexeme, rest'⟩ := read
      rw [hfirst] at hscan
      have hlt : rest'.length < cs.length := Nat.lt_of_lt_of_le (length_lt_of_first? hfirst) hle
      rw [lexemes_of_first? hfirst]
      cases hscan with
      | some hwalk =>
        exact hwalk.bind (((passes_walkLexemes rest').guarded hlt).bind (passes_pure _ []))
termination_by cs.length
decreasing_by exact hcs ▸ hlt

end Walk
end Rust
end Ferrotype

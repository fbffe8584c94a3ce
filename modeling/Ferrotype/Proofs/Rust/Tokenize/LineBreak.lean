/-
# Line breaks of two characters

A carriage return in front of every line feed changes no token of a source, as long as no literal
holds a line feed: types, texts, lines and columns stay the same, and so does the end
(`tokenize_addReturns`).
-/

import Ferrotype.Proofs.Rust.Tokenize.Again
import Ferrotype.Proofs.Rust.Tokenize.CommentBody
import Ferrotype.Proofs.Rust.Tokenize.Stream

namespace Ferrotype
namespace Text

/-! ## Texts with carriage returns -/

/-- A text with a carriage return in front of every line feed. -/
def addReturns : List Char → List Char
  | [] => []
  | c :: cs => if c = '\n' then '\r' :: '\n' :: addReturns cs else c :: addReturns cs

@[simp] theorem addReturns_newline (cs : List Char) :
    addReturns ('\n' :: cs) = '\r' :: '\n' :: addReturns cs := if_pos rfl

/-- What is no line feed stays as it is. -/
theorem addReturns_cons {c : Char} (hc : c ≠ '\n') (cs : List Char) :
    addReturns (c :: cs) = c :: addReturns cs := if_neg hc

/-- Returns are added part by part. -/
theorem addReturns_append (xs ys : List Char) :
    addReturns (xs ++ ys) = addReturns xs ++ addReturns ys := by
  induction xs with
  | nil => rfl
  | cons x xs ih =>
    rw [List.cons_append, addReturns, addReturns, ih]
    split <;> rfl

/-- A text without line feeds stays as it is. -/
theorem addReturns_of_newline_notMem {cs : List Char} (h : '\n' ∉ cs) : addReturns cs = cs := by
  induction cs with
  | nil => rfl
  | cons c cs ih =>
    rw [List.mem_cons, not_or] at h
    rw [addReturns_cons (Ne.symm h.1), ih h.2]

/-- Texts by whether they start with a line feed. -/
theorem newline_cases (cs : List Char) :
    cs = [] ∨ (∃ rest, cs = '\n' :: rest) ∨ ∃ c rest, c ≠ '\n' ∧ cs = c :: rest := by
  cases cs with
  | nil => exact .inl rfl
  | cons c rest =>
    by_cases hc : c = '\n'
    · exact .inr (.inl ⟨rest, by rw [hc]⟩)
    · exact .inr (.inr ⟨c, rest, hc, rfl⟩)

/-- A character other than a carriage return stands in both texts. -/
theorem exists_of_addReturns_eq_cons {cs ds : List Char} {d : Char} (hd : d ≠ '\r')
    (h : addReturns cs = d :: ds) : ∃ cs', cs = d :: cs' ∧ ds = addReturns cs' := by
  cases cs with
  | nil => cases h
  | cons c cs =>
    rw [addReturns] at h
    split at h
    · exact absurd (List.cons.inj h).1.symm hd
    · obtain ⟨rfl, rfl⟩ := List.cons.inj h
      exact ⟨cs, rfl, rfl⟩

/-- What is decided by the next character is decided alike, if it is so for line feeds and
returns. -/
theorem head?_any_addReturns {p : Char → Bool} (hreturn : p '\r' = false) (hfeed : p '\n' = false)
    (cs : List Char) : (addReturns cs).head?.any p = cs.head?.any p := by
  obtain rfl | ⟨cs, rfl⟩ | ⟨c, cs, hc, rfl⟩ := newline_cases cs
  · rfl
  · simp [hreturn, hfeed]
  · rw [addReturns_cons hc]
    rfl

end Text

namespace Rust
namespace Lexeme

open Text (addReturns addReturns_newline addReturns_cons newline_cases)

/-! ## Runs and numbers -/

/-- What is cut off a text does not change with the carriage returns, and the rest keeps them. -/
def KeepsReturns (cut : List Char → List Char × List Char) : Prop :=
  ∀ cs, cut (addReturns cs) = ((cut cs).1, addReturns (cut cs).2)

/-- A run that takes neither of the two ends at the same place. -/
theorem keepsReturns_run {p : Char → Bool} (hreturn : p '\r' = false) (hfeed : p '\n' = false) :
    KeepsReturns (run p) := by
  intro cs
  induction cs with
  | nil => rfl
  | cons c cs ih =>
    by_cases hc : c = '\n'
    · subst hc
      simp [run, hreturn, hfeed]
    · rw [addReturns_cons hc]
      by_cases hp : p c
      · simp only [run, Prod.mk.injEq] at ih
        simp [run, hp, ih]
      · simp [run, hp, addReturns_cons hc]

/-- One cut after the other ends at the same place if each of them does. -/
theorem KeepsReturns.andThen {first second : List Char → List Char × List Char}
    (hfirst : KeepsReturns first) (hsecond : KeepsReturns second) :
    KeepsReturns fun cs =>
      ((first cs).1 ++ (second (first cs).2).1, (second (first cs).2).2) := by
  intro cs
  simp only
  rw [hfirst, hsecond]

/-- A fraction is opened by two characters, neither of them a break. -/
theorem opensFraction_addReturns (cs : List Char) :
    opensFraction (addReturns cs) = opensFraction cs := by
  obtain rfl | ⟨cs, rfl⟩ | ⟨c, cs, hc, rfl⟩ := newline_cases cs
  · rfl
  · rcases cs with _ | ⟨d, cs⟩ <;> simp [opensFraction]
  · rw [addReturns_cons hc]
    obtain rfl | ⟨cs, rfl⟩ | ⟨d, cs, hd, rfl⟩ := newline_cases cs
    · rfl
    · simp [opensFraction]
    · rw [addReturns_cons hd]
      rfl

theorem isNumberDigit_return : isNumberDigit '\r' = false := rfl

theorem isNumberDigit_newline : isNumberDigit '\n' = false := rfl

/-- A fraction ends at the same place. -/
theorem keepsReturns_fraction : KeepsReturns fraction := by
  intro cs
  cases hopens : opensFraction cs with
  | false =>
    rw [fraction_of_opensFraction_eq_false hopens,
      fraction_of_opensFraction_eq_false ((opensFraction_addReturns cs).trans hopens)]
  | true =>
    unfold opensFraction at hopens
    split at hopens
    · rename_i c d cs
      rw [Bool.and_eq_true, beq_iff_eq] at hopens
      obtain ⟨rfl, hd⟩ := hopens
      have hne : d ≠ '\n' := by
        rintro rfl
        cases hd
      have hrun := keepsReturns_run isNumberDigit_return isNumberDigit_newline (d :: cs)
      rw [addReturns_cons (by decide), addReturns_cons hne, fraction, fraction, if_pos hd, if_pos hd,
        ← addReturns_cons hne, hrun]
    · cases hopens

theorem isDigit_return : Unicode.isDigit '\r' = false := by decide

theorem isDigit_newline : Unicode.isDigit '\n' = false := by decide

theorem isWordChar_return : Unicode.isWordChar '\r' = false := by decide

theorem isWordChar_newline : Unicode.isWordChar '\n' = false := by decide

/-- No break is a digit. -/
theorem startsWithDigit_addReturns (cs : List Char) :
    startsWithDigit (addReturns cs) = startsWithDigit cs := by
  have hany (ds : List Char) : startsWithDigit ds = ds.head?.any Unicode.isDigit := by
    cases ds <;> rfl
  rw [hany, hany, Text.head?_any_addReturns isDigit_return isDigit_newline]

/-- An exponent with a sign is opened by three characters, none of them a break. -/
theorem opensSigned_addReturns (cs : List Char) :
    opensSigned (addReturns cs) = opensSigned cs := by
  obtain rfl | ⟨cs, rfl⟩ | ⟨e, cs, he, rfl⟩ := newline_cases cs
  · rfl
  · rcases cs with _ | ⟨d, cs⟩ <;> simp [opensSigned]
  · rw [addReturns_cons he]
    obtain rfl | ⟨cs, rfl⟩ | ⟨sign, cs, hsign, rfl⟩ := newline_cases cs
    · rfl
    · simp [opensSigned]
    · rw [addReturns_cons hsign, opensSigned, opensSigned, startsWithDigit_addReturns]

/-- An exponent and a suffix end at the same place. -/
theorem keepsReturns_scale : KeepsReturns scale := by
  intro cs
  have hrun := keepsReturns_run isWordChar_return isWordChar_newline
  unfold scale
  rw [opensSigned_addReturns]
  split
  · rename_i hopens
    unfold opensSigned at hopens
    split at hopens
    · rename_i e sign cs
      rw [decide_eq_true_eq] at hopens
      have he : e ≠ '\n' := by
        rintro rfl
        simp at hopens
      have hsign : sign ≠ '\n' := by
        rintro rfl
        simp at hopens
      rw [addReturns_cons he, addReturns_cons hsign]
      simp only [List.take_succ_cons, List.take_zero, List.drop_succ_cons, List.drop_zero, hrun cs]
    · cases hopens
  · exact hrun cs

/-- Digits and all that follows them end at the same place. -/
theorem keepsReturns_numberTail : KeepsReturns numberTail := by
  rw [numberTail_eq]
  exact ((keepsReturns_run isNumberDigit_return isNumberDigit_newline).andThen
    keepsReturns_fraction).andThen keepsReturns_scale

/-- A number ends at the same place. -/
theorem keepsReturns_numberRest (first : Char) : KeepsReturns (numberRest first) := by
  intro cs
  unfold numberRest
  rw [Text.head?_any_addReturns (by decide) (by decide)]
  split
  · exact keepsReturns_run isWordChar_return isWordChar_newline cs
  · exact keepsReturns_numberTail cs

/-! ## Literals and comments -/

/-- The same with carriage returns in what is left. -/
def Enclosed.returnRest (e : Enclosed) : Enclosed := { e with rest := addReturns e.rest }

/-- A literal on one line ends at the same place. -/
theorem quotedTail_addReturns {quote : Char} (hquote : quote ≠ '\\') {cs : List Char}
    (h : '\n' ∉ (quotedTail quote cs).text) :
    quotedTail quote (addReturns cs) = (quotedTail quote cs).returnRest := by
  fun_induction quotedTail quote cs with
  | case1 => rfl
  | case2 => rfl
  | case3 c cs ih =>
    rw [Enclosed.text_after, List.mem_append, not_or] at h
    have hc : c ≠ '\n' := by
      rintro rfl
      simp at h
    rw [addReturns_cons (by decide), addReturns_cons hc, quotedTail, ih h.2]
    rfl
  | case4 cs hlast hescape =>
    have hne : quote ≠ '\n' := by
      rintro rfl
      simp [Enclosed.text] at h
    rw [addReturns_cons hne, quotedTail_cons hquote, if_pos rfl]
    rfl
  | case5 c cs hlast hescape hne ih =>
    rw [Enclosed.text_after, List.mem_append, not_or] at h
    have hc : c ≠ '\n' := by
      rintro rfl
      simp at h
    have hc' : c ≠ '\\' := by
      rintro rfl
      cases cs with
      | nil => exact hlast rfl rfl
      | cons d cs => exact hescape d cs rfl rfl
    rw [addReturns_cons hc, quotedTail_cons hc', if_neg hne, ih h.2]
    rfl

/-- No break is a hash. -/
theorem isPrefixOf_hashes_addReturns (hashes : Nat) (cs : List Char) :
    (List.replicate hashes '#').isPrefixOf (addReturns cs) =
      (List.replicate hashes '#').isPrefixOf cs := by
  induction hashes generalizing cs with
  | zero => rfl
  | succ hashes ih =>
    cases cs with
    | nil => rfl
    | cons c cs =>
      by_cases hc : c = '\n'
      · subst hc
        simp [List.replicate_succ, List.isPrefixOf_cons_cons]
      · rw [addReturns_cons hc, List.replicate_succ, List.isPrefixOf_cons_cons,
          List.isPrefixOf_cons_cons, ih]

/-- A raw literal on one line ends at the same place. -/
theorem rawTail_addReturns {hashes : Nat} {cs : List Char}
    (h : '\n' ∉ (rawTail hashes cs).text) :
    rawTail hashes (addReturns cs) = (rawTail hashes cs).returnRest := by
  fun_induction rawTail hashes cs with
  | case1 => rfl
  | case2 c cs hclose =>
    obtain ⟨rfl, hprefix⟩ := hclose
    rw [addReturns_cons (by decide), rawTail,
      if_pos ⟨rfl, (isPrefixOf_hashes_addReturns hashes cs).trans hprefix⟩]
    obtain ⟨rest, rfl⟩ := List.isPrefixOf_iff_prefix.1 hprefix
    have hhashes : '\n' ∉ List.replicate hashes '#' := fun hmem =>
      absurd (List.eq_of_mem_replicate hmem) (by decide)
    rw [Text.addReturns_append, Text.addReturns_of_newline_notMem hhashes,
      List.drop_left' List.length_replicate, List.drop_left' List.length_replicate]
    rfl
  | case3 c cs hopen ih =>
    rw [Enclosed.text_after, List.mem_append, not_or] at h
    have hc : c ≠ '\n' := by
      rintro rfl
      simp at h
    rw [addReturns_cons hc, rawTail, isPrefixOf_hashes_addReturns, if_neg hopen, ih h.2]
    rfl

/-- A comment keeps the carriage returns in its content. -/
theorem blockTail_addReturns (depth : Nat) (cs : List Char) :
    blockTail depth (addReturns cs) = ⟨addReturns (blockTail depth cs).content,
      (blockTail depth cs).closing, addReturns (blockTail depth cs).rest⟩ := by
  fun_induction blockTail depth cs with
  | case1 => rfl
  | case2 depth cs ih =>
    rw [addReturns_cons (by decide), addReturns_cons (by decide), blockTail, ih]
    rfl
  | case3 => rfl
  | case4 depth cs ih =>
    rw [addReturns_cons (by decide), addReturns_cons (by decide), blockTail, ih]
    rfl
  | case5 depth c cs hopen hclose hinner ih =>
    have hstarts {a b d : Char} {ds : List Char} : [a, b] <+: d :: addReturns ds →
        b ≠ '\r' → d = a ∧ ∃ tail, ds = b :: tail := by
      intro hprefix hb
      obtain ⟨hd, hhead⟩ := pair_prefix_cons_iff.1 hprefix
      obtain ⟨_, htail⟩ := List.head?_eq_some_iff.1 hhead
      obtain ⟨tail, htail, -⟩ := Text.exists_of_addReturns_eq_cons hb htail
      exact ⟨hd, tail, htail⟩
    by_cases hc : c = '\n'
    · subst hc
      rw [addReturns_newline, blockTail_char (by simp) (by simp), blockTail_char (by simp) (by simp),
        ih, Enclosed.after_after]
      rfl
    · rw [addReturns_cons hc, blockTail_char, ih]
      · simp only [Enclosed.after, List.singleton_append, addReturns_cons hc]
      · intro hprefix
        obtain ⟨rfl, tail, rfl⟩ := hstarts hprefix (by decide)
        exact hopen tail rfl rfl
      · intro hprefix
        obtain ⟨rfl, tail, rfl⟩ := hstarts hprefix (by decide)
        cases depth with
        | zero => exact hclose tail rfl rfl rfl
        | succ depth => exact hinner depth tail rfl rfl rfl

/-! ## Documentation -/

/-- The return at the end of a line of documentation is left out. -/
theorem lineDocText_return (content : List Char) :
    lineDocText (content ++ ['\r']) = lineDocText content := by
  simp [lineDocText]

theorem isBlank_return : Unicode.isBlank '\r' := by decide

/-- A return at the end is trimmed. -/
theorem trimEnd_return (line : List Char) :
    Unicode.trimEnd (line ++ ['\r']) = Unicode.trimEnd line := by
  simp [Unicode.trimEnd, isBlank_return]

/-- The same of a line trimmed at both ends. -/
theorem trim_return (line : List Char) : Unicode.trim (line ++ ['\r']) = Unicode.trim line := by
  unfold Unicode.trim Unicode.trimStart
  rw [List.dropWhile_append]
  split
  · rename_i hempty
    rw [List.isEmpty_iff.1 hempty]
    simp [isBlank_return]
  · exact trimEnd_return _

/-- A line with a return is blank if it is without. -/
theorem isBlankLine_return (line : List Char) :
    isBlankLine (line ++ ['\r']) = isBlankLine line := by
  simp [isBlankLine, isBlank_return]

/-- A line of a block has the same text with a return. -/
theorem blockDocText_return (line : List Char) :
    blockDocText (line ++ ['\r']) = blockDocText line := by
  have hhead : (line ++ ['\r']).head? = some ' ' ↔ line.head? = some ' ' := by
    cases line <;> simp
  unfold blockDocText
  rw [trim_return]
  simp only [hhead]

/-- Whether a line is another one, or that with a carriage return at its end. -/
def Returned (line line' : List Char) : Prop := line' = line ∨ line' = line ++ ['\r']

/-- A line with a return, or without, is blank if the other one is. -/
theorem Returned.isBlankLine_eq {line line' : List Char} (h : Returned line line') :
    isBlankLine line' = isBlankLine line := by
  rcases h with rfl | rfl
  · rfl
  · exact isBlankLine_return line

/-- A line with a return, or without, has the text of the other one. -/
theorem Returned.blockDocText_eq {line line' : List Char} (h : Returned line line') :
    blockDocText line' = blockDocText line := by
  rcases h with rfl | rfl
  · rfl
  · exact blockDocText_return line

/-- The lines of a text with carriage returns are its lines with one at the end of each but the
last. -/
theorem returned_splitAt (cs : List Char) :
    List.Forall₂ Returned (Text.splitAt '\n' cs) (Text.splitAt '\n' (addReturns cs)) := by
  induction cs with
  | nil => exact .cons (.inl rfl) .nil
  | cons c cs ih =>
    by_cases hc : c = '\n'
    · subst hc
      rw [addReturns_newline, Text.splitAt, if_pos rfl, Text.splitAt, if_neg (by decide),
        Text.splitAt, if_pos rfl]
      exact .cons (.inr rfl) ih
    · rw [addReturns_cons hc, Text.splitAt, if_neg hc, Text.splitAt, if_neg hc]
      generalize Text.splitAt '\n' cs = lines at ih ⊢
      generalize Text.splitAt '\n' (addReturns cs) = lines' at ih ⊢
      cases ih with
      | nil => exact .cons (.inl rfl) .nil
      | cons hline hlines => exact .cons (hline.imp (congrArg (c :: ·)) (congrArg (c :: ·))) hlines

/-- The same lines are dropped. -/
theorem returned_dropBlankFirst {lines lines' : List (List Char)}
    (h : List.Forall₂ Returned lines lines') :
    List.Forall₂ Returned (dropBlankFirst lines) (dropBlankFirst lines') := by
  cases h with
  | nil => exact .nil
  | cons hline hlines =>
    cases hlines with
    | nil => exact .cons hline .nil
    | cons hnext hrest =>
      rw [dropBlankFirst, dropBlankFirst, hline.isBlankLine_eq]
      split
      · exact .cons hnext hrest
      · exact .cons hline (.cons hnext hrest)

/-- The lines of a block have the same texts. -/
theorem map_blockDocText_addReturns (content : List Char) :
    (blockDocLines (addReturns content)).map blockDocText =
      (blockDocLines content).map blockDocText := by
  have hlines := List.rel_reverse (returned_dropBlankFirst
    (List.rel_reverse (returned_dropBlankFirst (returned_splitAt content))))
  have hmap {lines lines' : List (List Char)} (h : List.Forall₂ Returned lines lines') :
      lines'.map blockDocText = lines.map blockDocText := by
    induction h with
    | nil => rfl
    | cons hline _ ih => rw [List.map_cons, List.map_cons, hline.blockDocText_eq, ih]
  exact hmap hlines

/-- A block of documentation gives the same tokens with carriage returns in it. -/
theorem tokens_blockDoc_addReturns (content text text' : List Char) (p : Position) :
    (whole (.blockDoc (addReturns content)) text').tokens p =
      (whole (.blockDoc content) text).tokens p := by
  have htokens (content text : List Char) : (whole (.blockDoc content) text).tokens p =
      ((blockDocLines content).map blockDocText).zipIdx.map fun line =>
        ⟨.doc, String.ofList line.1, ⟨p.line + line.2, p.column⟩⟩ := by
    rw [List.zipIdx_map, List.map_map]
    rfl
  rw [htokens, htokens, map_blockDocText_addReturns]

/-! ## Positions -/

/-- The position behind a text does not depend on the carriage returns in front of its line
feeds. -/
theorem after_addReturns (p : Position) (cs : List Char) :
    p.after (addReturns cs) = p.after cs := by
  induction cs generalizing p with
  | nil => rfl
  | cons c cs ih =>
    by_cases hc : c = '\n'
    · subst hc
      rw [addReturns_newline, Position.after_cons, Position.after_cons, Position.after_cons, ih]
      rfl
    · rw [addReturns_cons hc, Position.after_cons, Position.after_cons, ih]

/-! ## Readers -/

/-- What is read of a text and of the text with carriage returns: lexemes that give the same tokens,
and rests that give the same tokens behind them. -/
structure Turned (r r' : Lexeme × List Char) : Prop where
  tokens_eq : ∀ p, r'.1.tokens p = r.1.tokens p
  rest_eq : ∀ p, TokenStream.ofSource (r'.1.finish p) r'.2 =
    TokenStream.ofSource (r.1.finish p) (addReturns r.2)

/-- A lexeme that stays as it is gives the same tokens, and so does what follows. -/
theorem turned_self (lexeme : Lexeme) (rest : List Char) :
    Turned (lexeme, rest) (lexeme, addReturns rest) :=
  ⟨fun _ => rfl, fun _ => rfl⟩

/-- Whether a lexeme is a string or a character literal. -/
def isLiteral (lexeme : Lexeme) : Bool :=
  match lexeme.shape with
  | .token .string _ => true
  | .token .char _ => true
  | _ => false

/-- Whether a lexeme is no literal over several lines. -/
def OnOneLine (lexeme : Lexeme) : Prop := lexeme.isLiteral → '\n' ∉ lexeme.text

instance (lexeme : Lexeme) : Decidable lexeme.OnOneLine :=
  inferInstanceAs (Decidable (lexeme.isLiteral = true → '\n' ∉ lexeme.text))

/-- A reader that reads alike with carriage returns, where no layout stands first and a literal is
on one line. -/
def Turns (reader : Reader) : Prop :=
  ∀ {c : Char} {cs : List Char}, isLayout c = false → (∀ r ∈ reader (c :: cs), OnOneLine r.1) →
    Option.Rel Turned (reader (c :: cs)) (reader (c :: addReturns cs))

/-- The shape of a comment that ends with its line hangs on its first two characters. -/
theorem tokens_lineShape_return (xs text text' : List Char) (p : Position) :
    (whole (lineShape (xs ++ ['\r'])) text').tokens p = (whole (lineShape xs) text).tokens p := by
  have hdoc (ys : List Char) : (whole (.lineDoc (ys ++ ['\r'])) text').tokens p =
      (whole (.lineDoc ys) text).tokens p := by
    simp only [tokens, whole, lineDocText_return]
  rcases xs with _ | ⟨x, xs⟩
  · rfl
  · by_cases hx : x = '/'
    · subst hx
      rcases xs with _ | ⟨y, ys⟩
      · exact hdoc []
      · by_cases hy : y = '/'
        · subst hy
          rfl
        · have hshape (zs : List Char) : lineShape ('/' :: y :: zs) = .lineDoc (y :: zs) := by
            simp [lineShape, hy]
          rw [List.cons_append, List.cons_append, hshape, hshape]
          exact hdoc (y :: ys)
    · simp [lineShape, hx]
      rfl

/-- A comment that ends with its line takes the return with it, and leaves it out of its text. -/
theorem turns_lineComment? : Turns lineComment? := by
  intro c cs hc _
  cases hread : lineComment? (c :: cs) with
  | none =>
    have hnone : lineComment? (c :: addReturns cs) = none := by
      unfold lineComment?
      split
      · rename_i tail heq
        obtain ⟨rfl, htail⟩ := List.cons.inj heq
        obtain ⟨cs, rfl, -⟩ := Text.exists_of_addReturns_eq_cons (by decide) htail
        cases hread
      · rfl
    rw [hnone]
    exact .none
  | some r =>
    obtain ⟨lexeme, rest⟩ := r
    obtain ⟨content, htext, hfeed, rfl, hrest⟩ := exists_of_lineComment? hread
    obtain ⟨rfl, rfl⟩ := List.cons.inj htext
    rw [addReturns_cons (by decide), Text.addReturns_append,
      Text.addReturns_of_newline_notMem hfeed]
    obtain rfl | ⟨more, rfl⟩ := hrest
    · rw [show addReturns [] = [] from rfl, hread]
      exact .some (turned_self _ [])
    · have hfeed' : '\n' ∉ content ++ ['\r'] := by simpa using hfeed
      have hread' := lineComment?_of_newline hfeed' (addReturns more)
      rw [List.append_assoc] at hread'
      rw [addReturns_newline]
      refine (show lineComment? _ = _ from hread') ▸ .some ⟨fun p => ?_, fun p => ?_⟩
      · exact tokens_lineShape_return content _ _ p
      · have hposition : p.after ('/' :: '/' :: (content ++ ['\r'])) =
            (p.after ('/' :: '/' :: content)).next '\r' := p.after_append ('/' :: '/' :: content) _
        rw [addReturns_newline, TokenStream.ofSource_layout rfl, TokenStream.ofSource_layout rfl,
          TokenStream.ofSource_layout rfl]
        exact congrArg (fun q => TokenStream.ofSource (q.next '\n') _) hposition

/-- What makes a comment documentation is no break. -/
theorem opensBlockDoc_addReturns (cs : List Char) :
    opensBlockDoc (addReturns cs) = opensBlockDoc cs := by
  obtain rfl | ⟨cs, rfl⟩ | ⟨c, cs, hc, rfl⟩ := newline_cases cs
  · rfl
  · simp [opensBlockDoc]
  · rw [addReturns_cons hc]
    obtain rfl | ⟨cs, rfl⟩ | ⟨d, cs, hd, rfl⟩ := newline_cases cs
    · rfl
    · simp [opensBlockDoc_cons_cons]
    · rw [addReturns_cons hd, opensBlockDoc_cons_cons, opensBlockDoc_cons_cons]

/-- A comment in block form may hold breaks; its lines have the same texts, and it ends at the same
place. -/
theorem turns_blockComment? : Turns blockComment? := by
  intro c cs hc _
  cases hread : blockComment? (c :: cs) with
  | none =>
    have hnone : blockComment? (c :: addReturns cs) = none := by
      unfold blockComment?
      split
      · rename_i tail heq
        obtain ⟨rfl, htail⟩ := List.cons.inj heq
        obtain ⟨cs, rfl, -⟩ := Text.exists_of_addReturns_eq_cons (by decide) htail
        rw [blockComment?] at hread
        split at hread <;> cases hread
      · rfl
    rw [hnone]
    exact .none
  | some r =>
    obtain ⟨body, rfl, rfl⟩ : ∃ body, c = '/' ∧ cs = '*' :: body := by
      revert hread
      generalize htext : c :: cs = text
      fun_cases blockComment? text
      · rintro -
        obtain ⟨rfl, rfl⟩ := List.cons.inj htext
        exact ⟨_, rfl, rfl⟩
      · rintro -
        obtain ⟨rfl, rfl⟩ := List.cons.inj htext
        exact ⟨_, rfl, rfl⟩
      · rintro ⟨⟩
    rw [addReturns_cons (by decide), ← hread, blockComment?, blockComment?, opensBlockDoc_addReturns]
    have hposition (opening : List Char) (cs : List Char) (p : Position) :
        p.after (opening ++ (addReturns (blockTail 0 cs).content ++ (blockTail 0 cs).closing)) =
          p.after (opening ++ (blockTail 0 cs).text) := by
      rw [Enclosed.text, Position.after_append, Position.after_append, after_addReturns,
        ← Position.after_append, ← Position.after_append]
    split
    · rename_i hdoc
      rcases body with _ | ⟨star, body⟩
      · cases hdoc
      have hstar : star ≠ '\n' := by
        rintro rfl
        simp [opensBlockDoc] at hdoc
      rw [addReturns_cons hstar]
      simp only [List.take_succ_cons, List.take_zero, List.drop_succ_cons, List.drop_zero,
        blockTail_addReturns]
      refine .some ⟨fun p => tokens_blockDoc_addReturns _ _ _ p, fun p => ?_⟩
      exact congrArg (TokenStream.ofSource · _) (hposition ['/', '*', star] body p)
    · rw [blockTail_addReturns]
      refine .some ⟨fun _ => rfl, fun p => ?_⟩
      exact congrArg (TokenStream.ofSource · _) (hposition ['/', '*'] body p)

/-- What opens a raw literal is no break. -/
theorem opensRaw_addReturns (cs : List Char) : opensRaw (addReturns cs) = opensRaw cs := by
  obtain rfl | ⟨cs, rfl⟩ | ⟨c, cs, hc, rfl⟩ := newline_cases cs
  · rfl
  · simp [opensRaw]
  · rw [addReturns_cons hc]
    obtain rfl | ⟨cs, rfl⟩ | ⟨d, cs, hd, rfl⟩ := newline_cases cs
    · rfl
    · simp [opensRaw_cons_cons]
    · rw [addReturns_cons hd, opensRaw_cons_cons, opensRaw_cons_cons]

/-- What opens a raw literal of bytes is no break. -/
theorem opensRawBytes_addReturns (cs : List Char) :
    opensRawBytes (addReturns cs) = opensRawBytes cs := by
  obtain rfl | ⟨cs, rfl⟩ | ⟨c, cs, hc, rfl⟩ := newline_cases cs
  · rfl
  · simp [opensRawBytes]
  · rw [addReturns_cons hc, opensRawBytes_cons, opensRawBytes_cons]

/-- A raw literal on one line is read as it was. -/
theorem rawBehind_addReturns {letters cs : List Char}
    (h : '\n' ∉ (rawBehind letters cs).1.text) :
    rawBehind letters (addReturns cs) =
      ((rawBehind letters cs).1, addReturns (rawBehind letters cs).2) := by
  simp only [rawBehind, List.mem_append, not_or] at h
  obtain ⟨⟨-, hquote⟩, hbody⟩ := h
  simp only [rawBehind, keepsReturns_run (p := (· == '#')) rfl rfl cs]
  generalize run (· == '#') cs = hashes at hquote hbody ⊢
  obtain ⟨hashes, behind⟩ := hashes
  rcases behind with _ | ⟨quote, tail⟩
  · rfl
  · have hne : quote ≠ '\n' := by
      rintro rfl
      simp at hquote
    simp only [addReturns_cons hne, List.drop_succ_cons, List.drop_zero] at hbody ⊢
    rw [rawTail_addReturns hbody]
    rfl

/-- A literal that is read alike with carriage returns. -/
theorem turned_of_eq {r r' : Lexeme × List Char} (h : r' = (r.1, addReturns r.2)) :
    Turned r r' := by
  rw [h]
  exact turned_self r.1 r.2

/-- Raw literals on one line give the same tokens. -/
theorem turns_rawString? : Turns rawString? := by
  intro c cs hc hline
  revert hline
  generalize htext : c :: cs = text
  fun_cases rawString? text with
  | case1 cs' hraw =>
    intro hline
    obtain ⟨rfl, rfl⟩ := List.cons.inj htext
    rw [rawString?, if_pos ((opensRaw_addReturns cs).trans hraw)]
    exact .some (turned_of_eq (rawBehind_addReturns (hline _ rfl rfl)))
  | case2 cs' hraw =>
    intro hline
    obtain ⟨rfl, rfl⟩ := List.cons.inj htext
    rw [rawString?, if_neg (by rwa [opensRaw_addReturns])]
    exact .none
  | case3 cs' hraw =>
    intro hline
    obtain ⟨rfl, rfl⟩ := List.cons.inj htext
    rw [addReturns_cons (by decide), rawString?,
      if_pos ((opensRawBytes_addReturns cs').trans hraw)]
    exact .some (turned_of_eq (rawBehind_addReturns (hline _ rfl rfl)))
  | case4 cs' hraw =>
    intro hline
    obtain ⟨rfl, rfl⟩ := List.cons.inj htext
    rw [addReturns_cons (by decide), rawString?, if_neg (by rwa [opensRawBytes_addReturns])]
    exact .none
  | case5 text hr hbr =>
    intro hline
    subst htext
    unfold rawString?
    split
    · rename_i tail heq
      cases heq
      exact (hr _ rfl).elim
    · rename_i tail heq
      obtain ⟨rfl, htail⟩ := List.cons.inj heq
      obtain ⟨cs, rfl, -⟩ := Text.exists_of_addReturns_eq_cons (by decide) htail
      exact (hbr _ rfl).elim
    · exact .none

/-- A literal on one line is read as it was. -/
theorem quotedBehind_addReturns {kind : Kind} {letters cs : List Char} {quote : Char}
    (hquote : quote ≠ '\\') (h : '\n' ∉ (quotedBehind kind letters quote cs).1.text) :
    quotedBehind kind letters quote (addReturns cs) =
      ((quotedBehind kind letters quote cs).1,
        addReturns (quotedBehind kind letters quote cs).2) := by
  simp only [quotedBehind, List.mem_append, List.mem_cons, not_or] at h
  rw [quotedBehind, quotedTail_addReturns hquote h.2.2]
  rfl

/-- Literals of bytes on one line give the same tokens. -/
theorem turns_bytes? : Turns bytes? := by
  intro c cs hc
  generalize htext : c :: cs = text
  fun_cases bytes? text with
  | case1 cs' =>
    intro hline
    obtain ⟨rfl, rfl⟩ := List.cons.inj htext
    rw [addReturns_cons (by decide), bytes?]
    exact .some (turned_of_eq (quotedBehind_addReturns (by decide) (hline _ rfl rfl)))
  | case2 cs' =>
    intro hline
    obtain ⟨rfl, rfl⟩ := List.cons.inj htext
    rw [addReturns_cons (by decide), bytes?]
    exact .some (turned_of_eq (quotedBehind_addReturns (by decide) (hline _ rfl rfl)))
  | case3 text hstring hchar =>
    intro hline
    subst htext
    unfold bytes?
    split
    · rename_i tail heq
      obtain ⟨rfl, htail⟩ := List.cons.inj heq
      obtain ⟨cs, rfl, -⟩ := Text.exists_of_addReturns_eq_cons (by decide) htail
      exact (hstring _ rfl).elim
    · rename_i tail heq
      obtain ⟨rfl, htail⟩ := List.cons.inj heq
      obtain ⟨cs, rfl, -⟩ := Text.exists_of_addReturns_eq_cons (by decide) htail
      exact (hchar _ rfl).elim
    · exact .none

/-- A word ends at the same place. -/
theorem keepsReturns_word : KeepsReturns (run Unicode.isWordChar) :=
  keepsReturns_run isWordChar_return isWordChar_newline

/-- Raw words give the same tokens. -/
theorem turns_rawWord? : Turns rawWord? := by
  intro c cs hc
  generalize htext : c :: cs = text
  fun_cases rawWord? text with
  | case1 d cs' hd =>
    intro hline
    obtain ⟨rfl, rfl⟩ := List.cons.inj htext
    have hne : d ≠ '\n' := by
      rintro rfl
      exact absurd hd (by decide)
    have hword := keepsReturns_word (d :: cs')
    rw [addReturns_cons hne] at hword
    rw [addReturns_cons (by decide), addReturns_cons hne, rawWord?, if_pos hd, hword]
    exact .some (turned_self _ _)
  | case2 d cs' hd =>
    intro hline
    obtain ⟨rfl, rfl⟩ := List.cons.inj htext
    rw [addReturns_cons (by decide), addReturns]
    split
    · rw [rawWord?, if_neg (by decide)]
      exact .none
    · rw [rawWord?, if_neg hd]
      exact .none
  | case3 text hword =>
    intro hline
    subst htext
    unfold rawWord?
    split
    · rename_i d tail heq
      obtain ⟨rfl, htail⟩ := List.cons.inj heq
      obtain ⟨cs, rfl, hrest⟩ := Text.exists_of_addReturns_eq_cons (by decide) htail
      rw [if_neg]
      · exact .none
      · intro hd
        have hne : d ≠ '\r' := by
          rintro rfl
          exact absurd hd (by decide)
        obtain ⟨cs, rfl, -⟩ := Text.exists_of_addReturns_eq_cons hne hrest.symm
        exact hword _ _ rfl
    · exact .none

/-- Strings on one line give the same tokens. -/
theorem turns_string? : Turns string? := by
  intro c cs hc
  generalize htext : c :: cs = text
  fun_cases string? text with
  | case1 cs' =>
    intro hline
    obtain ⟨rfl, rfl⟩ := List.cons.inj htext
    rw [string?]
    exact .some (turned_of_eq (quotedBehind_addReturns (by decide) (hline _ rfl rfl)))
  | case2 text hstring =>
    intro hline
    subst htext
    unfold string?
    split
    · rename_i tail heq
      cases heq
      exact (hstring _ rfl).elim
    · exact .none

/-- Whether a quote opens a character literal shows in two characters; if it does, the first of them
stays, unless it is a line feed. -/
theorem opensChar_addReturns {cs : List Char} (h : cs.head? ≠ some '\n') :
    opensChar (addReturns cs) = opensChar cs := by
  obtain rfl | ⟨cs, rfl⟩ | ⟨c, cs, hc, rfl⟩ := newline_cases cs
  · rfl
  · exact absurd rfl h
  · rw [addReturns_cons hc]
    obtain rfl | ⟨cs, rfl⟩ | ⟨d, cs, hd, rfl⟩ := newline_cases cs
    · rfl
    · simp [opensChar_cons_cons]
    · rw [addReturns_cons hd, opensChar_cons_cons, opensChar_cons_cons]

/-- Characters on one line give the same tokens, and so do lifetimes. A quote in front of a break
opens neither differently. -/
theorem turns_single? : Turns single? := by
  intro c cs hc
  generalize htext : c :: cs = text
  fun_cases single? text with
  | case1 cs' hopens =>
    intro hline
    obtain ⟨rfl, rfl⟩ := List.cons.inj htext
    have hfeed : '\n' ∉ (quotedBehind .char [] '\'' cs).1.text := hline _ rfl rfl
    have hhead : cs.head? ≠ some '\n' := by
      intro hhead
      obtain ⟨tail, rfl⟩ := List.head?_eq_some_iff.1 hhead
      simp [quotedBehind, quotedTail_cons, Enclosed.text_after] at hfeed
    rw [single?, if_pos ((opensChar_addReturns hhead).trans hopens)]
    exact .some (turned_of_eq (quotedBehind_addReturns (by decide) hfeed))
  | case2 cs' hopens word =>
    intro hline
    obtain ⟨rfl, rfl⟩ := List.cons.inj htext
    have hopens' : ¬ opensChar (addReturns cs) := by
      by_cases hhead : cs.head? = some '\n'
      · obtain ⟨tail, rfl⟩ := List.head?_eq_some_iff.1 hhead
        simp [opensChar_cons_cons]
      · rwa [opensChar_addReturns hhead]
    rw [single?, if_neg hopens', keepsReturns_word]
    exact .some (turned_self _ _)
  | case3 text hsingle =>
    intro hline
    subst htext
    unfold single?
    split
    · rename_i tail heq
      cases heq
      exact (hsingle _ rfl).elim
    · exact .none

/-- Numbers give the same tokens. -/
theorem turns_number? : Turns number? := by
  intro c cs hc hline
  rw [number?, number?]
  split
  · rw [keepsReturns_numberRest]
    exact .some (turned_self _ _)
  · exact .none

/-- Words give the same tokens. -/
theorem turns_word? : Turns word? := by
  intro c cs hc hline
  rw [word?, word?]
  split
  · rw [keepsReturns_word]
    exact .some (turned_self _ _)
  · exact .none

/-- A return is the second part of no pair. -/
theorem ofPair?_return (c : Char) : Kind.ofPair? c '\r' = none := by
  unfold Kind.ofPair?
  split <;> simp_all

/-- A line feed is the second part of no pair. -/
theorem ofPair?_newline (c : Char) : Kind.ofPair? c '\n' = none := by
  unfold Kind.ofPair?
  split <;> simp_all

/-- Pairs give the same tokens. -/
theorem turns_pair? : Turns pair? := by
  intro c cs hc hline
  rcases cs with _ | ⟨d, cs⟩
  · exact .none
  · by_cases hd : d = '\n'
    · subst hd
      rw [addReturns_newline, pair?, pair?, ofPair?_return, ofPair?_newline]
      exact .none
    · rw [addReturns_cons hd, pair?, pair?]
      cases Kind.ofPair? c d with
      | none => exact .none
      | some kind => exact .some (turned_self _ _)

/-- Marks give the same tokens. -/
theorem turns_mark? : Turns mark? := fun _ _ => .some (turned_self _ _)

/-- What is no layout is none with returns behind it. -/
theorem turns_layout? : Turns layout? := by
  intro c cs hc hline
  rw [layout?, layout?, hc]
  exact .none

/-- All readers give the same tokens for what is no layout. -/
theorem turns_of_mem_readers {reader : Reader} (h : reader ∈ readers) : Turns reader := by
  simp only [readers, List.mem_cons, List.not_mem_nil, or_false] at h
  rcases h with rfl | rfl | rfl | rfl | rfl | rfl | rfl | rfl | rfl | rfl | rfl | rfl
  · exact turns_layout?
  · exact turns_lineComment?
  · exact turns_blockComment?
  · exact turns_rawString?
  · exact turns_bytes?
  · exact turns_rawWord?
  · exact turns_string?
  · exact turns_single?
  · exact turns_number?
  · exact turns_word?
  · exact turns_pair?
  · exact turns_mark?

/-- The first of several readers that answers is the first one that does so with carriage
returns. -/
theorem turned_findSome? {rs : List Reader} (hrs : ∀ reader ∈ rs, Turns reader) {c : Char}
    {cs : List Char} (hc : isLayout c = false)
    (hline : ∀ r ∈ rs.findSome? (· (c :: cs)), OnOneLine r.1) :
    Option.Rel Turned (rs.findSome? (· (c :: cs))) (rs.findSome? (· (c :: addReturns cs))) := by
  induction rs with
  | nil => exact .none
  | cons reader rs ih =>
    obtain ⟨hreader, hrest⟩ := List.forall_mem_cons.1 hrs
    have hturns := @hreader c cs hc
    rw [List.findSome?_cons] at hline ⊢
    rw [List.findSome?_cons]
    generalize reader (c :: cs) = read at hturns hline ⊢
    generalize reader (c :: addReturns cs) = read' at hturns ⊢
    cases read with
    | none =>
      cases hturns fun _ h => nomatch h
      exact ih hrest hline
    | some r =>
      cases hturns hline with
      | some hturned => exact .some hturned

/-- A lexeme that is no layout is read alike with carriage returns. -/
theorem turned_first? {c : Char} {cs : List Char} (hc : isLayout c = false)
    (hline : ∀ r ∈ first? (c :: cs), OnOneLine r.1) :
    Option.Rel Turned (first? (c :: cs)) (first? (c :: addReturns cs)) :=
  turned_findSome? (fun _ => turns_of_mem_readers) hc hline

end Lexeme

/-! ## Sources -/

open Text (addReturns addReturns_newline addReturns_cons)

/-- Behind layout the lexemes are the same, but for layout. -/
theorem mem_lexemes_layout {c : Char} (hc : Lexeme.isLayout c) {cs : List Char} {lexeme : Lexeme}
    (h : lexeme ∈ lexemes cs) : lexeme.shape = .blank ∨ lexeme ∈ lexemes (c :: cs) := by
  have hrun : (Lexeme.run Lexeme.isLayout (c :: cs)).2 = (Lexeme.run Lexeme.isLayout cs).2 :=
    List.dropWhile_cons_of_pos hc
  rw [Walk.lexemes_layout, List.mem_append] at h
  rw [Walk.lexemes_layout, hrun]
  rcases h with h | h
  · split at h
    · cases h
    · rw [List.mem_singleton.1 h]
      exact .inl rfl
  · exact .inr (List.mem_append_right _ h)

/-- **Carriage returns change no token of a source and not its end.** -/
theorem ofSource_addReturns (p : Position) (cs : List Char)
    (h : ∀ lexeme ∈ lexemes cs, lexeme.OnOneLine) :
    TokenStream.ofSource p (addReturns cs) = TokenStream.ofSource p cs := by
  cases hcs : cs with
  | nil => rfl
  | cons c tail =>
    subst hcs
    by_cases hc : Lexeme.isLayout c
    · have htail : ∀ lexeme ∈ lexemes tail, lexeme.OnOneLine := by
        intro lexeme hmem hliteral
        obtain hblank | hmem := mem_lexemes_layout hc hmem
        · simp [Lexeme.isLiteral, hblank] at hliteral
        · exact h lexeme hmem hliteral
      have ih (q : Position) := ofSource_addReturns q tail htail
      rw [TokenStream.ofSource_layout hc]
      by_cases hfeed : c = '\n'
      · subst hfeed
        rw [addReturns_newline, TokenStream.ofSource_layout rfl, TokenStream.ofSource_layout rfl, ih]
        rfl
      · rw [addReturns_cons hfeed, TokenStream.ofSource_layout hc, ih]
    · have hne : c ≠ '\n' := by
        rintro rfl
        exact hc rfl
      rw [addReturns_cons hne]
      obtain ⟨⟨lexeme, rest⟩, hfirst⟩ : ∃ r, Lexeme.first? (c :: tail) = some r :=
        Option.ne_none_iff_exists'.1 fun hnone => by
          cases Lexeme.first?_eq_none_iff.1 hnone
      rw [lexemes_of_first? hfirst, List.forall_mem_cons] at h
      have hturned := Lexeme.turned_first? (Bool.eq_false_iff.2 hc) fun r hr => by
        rw [hfirst] at hr
        cases hr
        exact h.1
      rw [hfirst] at hturned
      generalize hfirst' : Lexeme.first? (c :: addReturns tail) = read' at hturned
      cases hturned with
      | some hturned =>
        have hlt := Lexeme.length_lt_of_first? hfirst
        rw [TokenStream.ofSource_of_first? hfirst', TokenStream.ofSource_of_first? hfirst,
          hturned.tokens_eq, hturned.rest_eq, ofSource_addReturns _ rest h.2]
termination_by cs.length

/-- **Line breaks of two characters give the tokens that line feeds give.** -/
theorem tokenize_addReturns {source : String}
    (h : ∀ lexeme ∈ lexemes source.toList, lexeme.OnOneLine) :
    (tokenize (String.ofList (addReturns source.toList))).toList = (tokenize source).toList := by
  rw [tokenize, String.toList_ofList]
  exact congrArg TokenStream.toList (ofSource_addReturns Position.start source.toList h)

/-- A block of documentation and a line of it, a character literal and a lifetime, each in front of
a line break. -/
theorem tokenize_addReturns_documented :
    let source := "/**\n * a\n  b */\n/// c\nstruct S<'l>;\n'x'\n'"
    (∀ lexeme ∈ lexemes source.toList, lexeme.OnOneLine) ∧
      (tokenize (String.ofList (addReturns source.toList))).toList = (tokenize source).toList := by
  intro source
  have hlines : ∀ lexeme ∈ lexemes source.toList, lexeme.OnOneLine := by decide +kernel
  exact ⟨hlines, tokenize_addReturns hlines⟩

end Rust
end Ferrotype

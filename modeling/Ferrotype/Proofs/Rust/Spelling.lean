/-
# Spellings of a string

A string can be spelled in many ways. An ordinary literal may write each character as it is, by a
letter behind a backslash or by its code point, and may go on in the next line behind a backslash; a
raw literal stands between quotes with hashes that close it nowhere inside. `Spells` relates the
literals to the texts they stand for.

`Spells.cutInto` says that every spelling is cut, whatever follows it, into one token that stands
for the text. The token of a raw literal is an ordinary literal again.
-/

import Ferrotype.Proofs.Rust.Tokenize.Cut
import Ferrotype.Proofs.Rust.Tokenize.Parted
import Ferrotype.Proofs.Rust.Canonical.Literal
import Ferrotype.Proofs.Text.Hexadecimal

namespace Ferrotype
namespace Rust

open Lexeme (quotedTail rawTail)
open Text.Hexadecimal (isDigit number)

/-- The letters that stand for a character behind a backslash. -/
def letterEscapes : List (Char × Char) :=
  [('n', '\n'), ('t', '\t'), ('r', '\r'), ('0', '\x00'), ('\\', '\\'), ('"', '"'), ('\'', '\'')]

/-- What stands between the quotes of an ordinary literal, with the text that it stands for. A code
point between braces may have underscores among its digits; behind a backslash at the end of a line
the layout at the start of the next line is left out. -/
inductive Escaped : List Char → List Char → Prop
  | nil : Escaped [] []
  | plain {c : Char} {body text : List Char} (hquote : c ≠ '"') (hbackslash : c ≠ '\\')
    (h : Escaped body text) : Escaped (c :: body) (c :: text)
  | letter {e c : Char} {body text : List Char} (he : (e, c) ∈ letterEscapes)
    (h : Escaped body text) : Escaped ('\\' :: e :: body) (c :: text)
  | ascii {high low c : Char} {body text : List Char} (hdigits : ∀ d ∈ [high, low], isDigit d)
    (hvalue : number [high, low] = c.toNat) (hascii : c.toNat < 0x80) (h : Escaped body text) :
    Escaped ('\\' :: 'x' :: high :: low :: body) (c :: text)
  | codePoint {digits : List Char} {c : Char} {body text : List Char}
    (hdigits : ∀ d ∈ digits, isDigit d ∨ d = '_') (hne : digits.filter (· != '_') ≠ [])
    (hvalue : number (digits.filter (· != '_')) = c.toNat) (h : Escaped body text) :
    Escaped ('\\' :: 'u' :: '\x7b' :: (digits ++ '\x7d' :: body)) (c :: text)
  | nextLine {layout body text : List Char} (hlayout : ∀ c ∈ layout, Escape.isLayout c)
    (hbody : ∀ c ∈ body.head?, Escape.isLayout c = false) (h : Escaped body text) :
    Escaped ('\\' :: '\n' :: (layout ++ body)) text

/-- What closes a raw literal. -/
def rawClosing (hashes : Nat) : List Char := '"' :: List.replicate hashes '#'

/-- The literals that stand for a text. -/
inductive Spells : List Char → String → Prop
  | ordinary {body : List Char} {text : String} (h : Escaped body text.toList) :
    Spells ('"' :: (body ++ ['"'])) text
  | raw {hashes : Nat} {text : String} (h : ¬ rawClosing hashes <:+: text.toList) :
    Spells ('r' :: (List.replicate hashes '#' ++ '"' :: (text.toList ++ rawClosing hashes))) text

/-- Characters that are neither quotes nor backslashes stand for themselves. -/
theorem escaped_self {text : List Char} (h : ∀ c ∈ text, c ≠ '"' ∧ c ≠ '\\') :
    Escaped text text := by
  induction text with
  | nil => exact .nil
  | cons c text ih =>
    obtain ⟨⟨hquote, hbackslash⟩, htext⟩ := List.forall_mem_cons.1 h
    exact .plain hquote hbackslash (ih htext)

/-! ## Ordinary literals -/

/-- Characters that need no escape are part of the literal. -/
theorem quotedTail_plain {quote : Char} {xs : List Char} (hxs : ∀ x ∈ xs, x ≠ quote ∧ x ≠ '\\')
    (cs : List Char) : quotedTail quote (xs ++ cs) = (quotedTail quote cs).after xs := by
  induction xs with
  | nil => rfl
  | cons x xs ih =>
    obtain ⟨⟨hquote, hbackslash⟩, hxs⟩ := List.forall_mem_cons.1 hxs
    rw [List.cons_append, Lexeme.quotedTail_cons hbackslash, if_neg hquote, ih hxs]
    rfl

/-- Digits and underscores close no literal and open no escape. -/
theorem ne_quote_of_digit {d : Char} (h : isDigit d ∨ d = '_') : d ≠ '"' ∧ d ≠ '\\' := by
  rcases h with h | rfl
  · exact ⟨Text.Hexadecimal.ne_of_isDigit h rfl, Text.Hexadecimal.ne_of_isDigit h rfl⟩
  · decide

/-- Layout is neither a quote nor a backslash. -/
theorem ne_quote_of_isLayout {c : Char} (h : Escape.isLayout c) : c ≠ '"' ∧ c ≠ '\\' := by
  constructor <;> (rintro rfl; exact absurd h (by decide))

/-- An ordinary literal is read up to the quote that closes it. -/
theorem quotedTail_escaped {body text : List Char} (h : Escaped body text) (rest : List Char) :
    quotedTail '"' (body ++ '"' :: rest) = ⟨body, ['"'], rest⟩ := by
  induction h with
  | nil => rw [List.nil_append, Lexeme.quotedTail_cons (by decide), if_pos rfl]
  | @plain c body _ hquote hbackslash _ ih =>
    rw [List.cons_append, Lexeme.quotedTail_cons hbackslash, if_neg hquote, ih]
    rfl
  | letter _ _ ih =>
    rw [List.cons_append, List.cons_append, quotedTail, ih]
    rfl
  | @ascii high low c body _ hdigits _ _ _ ih =>
    have hplain := quotedTail_plain
      (fun d hd => ne_quote_of_digit (.inl (hdigits d hd))) (body ++ '"' :: rest)
    rw [List.cons_append, List.cons_append, List.cons_append, List.cons_append, quotedTail]
    rw [List.cons_append, List.cons_append, List.nil_append, ih] at hplain
    rw [hplain]
    rfl
  | @codePoint digits c body _ hdigits _ _ _ ih =>
    have hplain : ∀ d ∈ '\x7b' :: (digits ++ ['\x7d']), d ≠ '"' ∧ d ≠ '\\' := by
      rw [List.forall_mem_cons, List.forall_mem_append, List.forall_mem_singleton]
      exact ⟨by decide, fun d hd => ne_quote_of_digit (hdigits d hd), by decide⟩
    have htail := quotedTail_plain hplain (body ++ '"' :: rest)
    rw [ih, List.cons_append, List.append_assoc, List.singleton_append] at htail
    rw [List.cons_append, List.cons_append, quotedTail, List.cons_append, List.append_assoc,
      List.cons_append, htail]
    simp [Lexeme.Enclosed.after]
  | @nextLine layout body _ hlayout _ _ ih =>
    have htail := quotedTail_plain (fun d hd => ne_quote_of_isLayout (hlayout d hd))
      (body ++ '"' :: rest)
    rw [List.cons_append, List.cons_append, quotedTail, List.append_assoc, htail, ih]
    rfl

/-- A code point is that of its character. -/
theorem ofCodePoint_toNat (c : Char) : Escape.ofCodePoint c.toNat = c := by
  have hvalid : c.toNat < 0xD800 ∨ 0xDFFF < c.toNat ∧ c.toNat < 0x110000 := c.valid
  rw [Escape.ofCodePoint, Text.CodePoint.ofNat, if_neg (by omega), Text.CodePoint.read,
    Char.ofNat_toNat]

/-- The digits of a character's number name the character. -/
theorem codePoint_of_number {digits : List Char} {c : Char} (hdigits : ∀ d ∈ digits, isDigit d)
    (hne : digits ≠ []) (hvalue : number digits = c.toNat) : Escape.codePoint digits = .ok c := by
  have hvalid : c.toNat < 0xD800 ∨ 0xDFFF < c.toNat ∧ c.toNat < 0x110000 := c.valid
  have hlow : ¬ (0x80000000 ≤ (c.toNat : Int) ∨ (c.toNat : Int) < -0x80000000) := by omega
  have hrange : ¬ ((c.toNat : Int) < 0 ∨ 0x110000 ≤ (c.toNat : Int)) := by omega
  rw [Escape.codePoint, Text.Hexadecimal.read?_of_isDigit hdigits hne, hvalue]
  simp only [if_neg hlow, if_neg hrange, Int.toNat_natCast, ofCodePoint_toNat]

/-- Digits and underscores are read up to the closing brace, without the underscores. -/
theorem braced_of_digits {digits : List Char} (h : ∀ d ∈ digits, isDigit d ∨ d = '_')
    (body : List Char) :
    Escape.braced (digits ++ '\x7d' :: body) = (digits.filter (· != '_'), some body) := by
  have hbrace : ∀ d ∈ digits, (d != '\x7d') = true := fun d hd => by
    rcases h d hd with hdigit | rfl
    · exact bne_iff_ne.2 (Text.Hexadecimal.ne_of_isDigit hdigit rfl)
    · rfl
  rw [Escape.braced, List.dropWhile_append_of_pos hbrace, List.takeWhile_append_of_pos hbrace,
    List.dropWhile_cons_of_neg (by decide), List.takeWhile_cons_of_neg (by decide),
    List.append_nil]

/-- The underscores among digits are left out, and the rest is a code point. -/
theorem codePoint_of_filter {digits : List Char} {c : Char}
    (hdigits : ∀ d ∈ digits, isDigit d ∨ d = '_') (hne : digits.filter (· != '_') ≠ [])
    (hvalue : number (digits.filter (· != '_')) = c.toNat) :
    Escape.codePoint (digits.filter (· != '_')) = .ok c := by
  refine codePoint_of_number (fun d hd => ?_) hne hvalue
  obtain ⟨hmem, hunderscore⟩ := List.mem_filter.1 hd
  exact (hdigits d hmem).resolve_right (bne_iff_ne.1 hunderscore)

/-- An escape between braces is the code point of its digits, and its text goes on behind them. -/
theorem resolve_braced {digits : List Char} (hdigits : ∀ d ∈ digits, isDigit d ∨ d = '_')
    (body : List Char) :
    Escape.resolve ('\\' :: 'u' :: '\x7b' :: (digits ++ '\x7d' :: body)) =
      (Escape.codePoint (digits.filter (· != '_'))).bind fun c =>
        (Escape.resolve body).map (c :: ·) := by
  have hletter : Escape.ofLetter? 'u' = none := rfl
  have hbraced := braced_of_digits hdigits body
  rw [Escape.resolve]
  simp only [hletter, List.head?_cons, and_self, if_true]
  split
  · rename_i after hafter
    rw [List.drop_succ_cons, List.drop_zero, hbraced] at hafter
    obtain rfl := Option.some.inj hafter
    rw [List.drop_succ_cons, List.drop_zero, hbraced]
  · rename_i hafter
    rw [List.drop_succ_cons, List.drop_zero, hbraced] at hafter
    cases hafter

/-- The letters with an escape have their characters. -/
theorem ofLetter?_of_mem : ∀ p ∈ letterEscapes, Escape.ofLetter? p.1 = some p.2 := by
  decide

/-- **Between its quotes an ordinary literal stands for its text.** -/
theorem resolve_escaped {body text : List Char} (h : Escaped body text) :
    Escape.resolve body = .ok text := by
  induction h with
  | nil => rw [Escape.resolve]
  | plain _ hbackslash _ ih =>
    rw [Escape.resolve, ih]
    · rfl
    · exact fun h _ => hbackslash h
    · exact fun _ _ h _ => hbackslash h
  | letter he _ ih =>
    rw [Escape.resolve]
    simp only [ofLetter?_of_mem _ he, ih]
    rfl
  | @ascii high low c body _ hdigits hvalue _ _ ih =>
    have hpoint : Escape.codePoint [high, low] = .ok c :=
      codePoint_of_number hdigits (List.cons_ne_nil _ _) hvalue
    have hletter : Escape.ofLetter? 'x' = none := rfl
    rw [Escape.resolve]
    simp only [hletter, List.take_succ_cons, List.take_zero, List.drop_succ_cons, List.drop_zero,
      hpoint, ih]
    rfl
  | @codePoint digits c body _ hdigits hne hvalue _ ih =>
    rw [resolve_braced hdigits, codePoint_of_filter hdigits hne hvalue, ih]
    rfl
  | @nextLine layout body _ hlayout hbody _ ih =>
    have hletter : Escape.ofLetter? '\n' = none := rfl
    have hskip : (layout ++ body).dropWhile Escape.isLayout = body := by
      rw [List.dropWhile_append_of_pos hlayout]
      cases body with
      | nil => rfl
      | cons c body => exact List.dropWhile_cons_of_neg (by simp [hbody c rfl])
    rw [Escape.resolve]
    simp only [hletter, hskip, ih]
    rfl

/-- Escapes are longer than what they stand for. -/
theorem Escaped.length_le {body text : List Char} (h : Escaped body text) :
    text.length ≤ body.length ∧ ('\\' ∈ body → text.length < body.length) := by
  induction h with
  | nil => simp
  | plain _ hbackslash _ ih =>
    simp only [List.length_cons, List.mem_cons, Ne.symm hbackslash, false_or]
    exact ⟨Nat.succ_le_succ ih.1, fun hmem => Nat.succ_lt_succ (ih.2 hmem)⟩
  | letter _ _ ih | ascii _ _ _ _ ih | codePoint _ _ _ _ ih | nextLine _ _ _ ih =>
    simp only [List.length_cons, List.length_append]
    exact ⟨by omega, fun _ => by omega⟩

/-- What stands between the quotes is the string that it stands for if and only if no escape is in
it. -/
theorem Escaped.eq_iff {body text : List Char} (h : Escaped body text) :
    body = text ↔ '\\' ∉ body := by
  refine ⟨?_, fun hplain => ?_⟩
  · rintro rfl hmem
    exact Nat.lt_irrefl _ (h.length_le.2 hmem)
  · induction h with
    | nil => rfl
    | plain _ _ _ ih =>
      rw [List.mem_cons, not_or] at hplain
      rw [ih hplain.2]
    | letter | ascii | codePoint | nextLine => exact absurd List.mem_cons_self hplain

/-! ## Raw literals -/

/-- A raw literal is read up to the first quote with as many hashes behind it. -/
theorem rawTail_of_not_infix {hashes : Nat} {text : List Char}
    (h : ¬ rawClosing hashes <:+: text) (rest : List Char) :
    rawTail hashes (text ++ (rawClosing hashes ++ rest)) = ⟨text, rawClosing hashes, rest⟩ := by
  induction text with
  | nil =>
    have hprefix : (List.replicate hashes '#').isPrefixOf (List.replicate hashes '#' ++ rest) :=
      List.isPrefixOf_iff_prefix.2 (List.prefix_append _ _)
    rw [List.nil_append, rawClosing, List.cons_append, rawTail, if_pos ⟨rfl, hprefix⟩,
      List.drop_left' List.length_replicate]
  | cons c text ih =>
    have hopen : ¬ (c = '"' ∧ (List.replicate hashes '#').isPrefixOf
        (text ++ (rawClosing hashes ++ rest))) := by
      rintro ⟨rfl, hprefix⟩
      have hprefix := List.isPrefixOf_iff_prefix.1 hprefix
      rcases Nat.lt_or_ge text.length hashes with hshort | hlong
      · -- The hashes would have to go on over the closing quote.
        have hquote := List.IsPrefix.getElem hprefix (i := text.length) (by simpa using hshort)
        simp [rawClosing] at hquote
      · have hinside : List.replicate hashes '#' <+: text :=
          List.prefix_of_prefix_length_le hprefix (List.prefix_append _ _) (by simpa using hlong)
        obtain ⟨more, hmore⟩ := hinside
        exact h ⟨[], more, by rw [List.nil_append, rawClosing, List.cons_append, hmore]⟩
    have hrest := ih fun hinner => h (hinner.trans (List.suffix_cons c text).isInfix)
    rw [List.cons_append, rawTail, if_neg hopen, hrest]
    rfl

/-- Hashes and a quote open a raw literal. -/
theorem opensRaw_replicate (hashes : Nat) (cs : List Char) :
    Lexeme.opensRaw (List.replicate hashes '#' ++ '"' :: cs) := by
  match hashes with
  | 0 => rfl
  | 1 => rfl
  | _ + 2 => rfl

/-- The body of a raw literal, as it stands in its token. -/
theorem exists_ofRawBody (text : List Char) :
    ∃ body, Lexeme.ofRawBody text = '"' :: (body ++ ['"']) ∧ Escaped body text := by
  refine ⟨_, rfl, ?_⟩
  induction text with
  | nil => exact .nil
  | cons c text ih =>
    rw [List.flatMap_cons]
    split
    · rename_i hc
      subst hc
      exact .letter (by decide) ih
    · rename_i hbackslash
      split
      · rename_i hc
        subst hc
        exact .letter (by decide) ih
      · rename_i hquote
        exact .plain hquote hbackslash ih

/-- A raw literal is read to the quote with as many hashes as it was opened with. -/
theorem first?_of_raw {hashes : Nat} {text : List Char} (h : ¬ rawClosing hashes <:+: text)
    (rest : List Char) : ∃ lexeme,
      Lexeme.first? ('r' :: (List.replicate hashes '#' ++
        '"' :: (text ++ (rawClosing hashes ++ rest)))) = some (lexeme, rest) ∧
      lexeme.shape = .token .string (Lexeme.ofRawBody text) := by
  have hfirst {cs : List Char} (hcs : Lexeme.opensRaw cs) :
      Lexeme.first? ('r' :: cs) = some (Lexeme.rawBehind ['r'] cs) := by
    have hlayout : Lexeme.layout? ('r' :: cs) = none := rfl
    have hline : Lexeme.lineComment? ('r' :: cs) = none := rfl
    have hblock : Lexeme.blockComment? ('r' :: cs) = none := rfl
    have hraw : Lexeme.rawString? ('r' :: cs) = some (Lexeme.rawBehind ['r'] cs) := if_pos hcs
    simp only [Lexeme.first?, Lexeme.readers, List.findSome?_cons, hlayout, hline, hblock, hraw]
  have hrun : Lexeme.run (· == '#') (List.replicate hashes '#' ++
      '"' :: (text ++ (rawClosing hashes ++ rest))) =
        (List.replicate hashes '#', '"' :: (text ++ (rawClosing hashes ++ rest))) :=
    Lexeme.run_append_of_head? (fun x hx => beq_iff_eq.2 (List.eq_of_mem_replicate hx))
      (by simp)
  rw [hfirst (opensRaw_replicate hashes _), Lexeme.rawBehind, hrun]
  simp only [List.length_replicate, List.drop_succ_cons, List.drop_zero, rawTail_of_not_infix h]
  exact ⟨_, rfl, rfl⟩

/-! ## Every spelling -/

/-- A spelling of a string is cut into one token, an ordinary literal. -/
theorem Spells.exists_body {literal : List Char} {text : String} (h : Spells literal text) :
    ∃ body, CutInto literal [⟨.string, String.ofList ('"' :: (body ++ ['"']))⟩] ∧
      Escaped body text.toList := by
  cases h with
  | @ordinary body _ h =>
    refine ⟨body, .of_first? fun rest => ?_, h⟩
    have hfirst (cs : List Char) :
        Lexeme.first? ('"' :: cs) = some (Lexeme.quotedBehind .string [] '"' cs) := rfl
    rw [List.cons_append, List.append_assoc, List.singleton_append, hfirst, Lexeme.quotedBehind,
      quotedTail_escaped h]
    exact ⟨_, rfl, rfl⟩
  | @raw hashes _ h =>
    obtain ⟨body, hbody, hescaped⟩ := exists_ofRawBody text.toList
    refine ⟨body, .of_first? fun rest => ?_, hescaped⟩
    obtain ⟨lexeme, hfirst, hshape⟩ := first?_of_raw h rest
    refine ⟨lexeme, ?_, ?_⟩
    · simpa only [List.cons_append, List.append_assoc] using hfirst
    · rw [Lexeme.pieces, Lexeme.tokens, hshape, ← hbody]
      rfl

/-- **A spelling of a string is cut into one token, which stands for the string.** -/
theorem Spells.cutInto {literal : List Char} {text : String} (h : Spells literal text) :
    ∃ value, CutInto literal [⟨.string, value⟩] ∧ unquote value = .ok text := by
  obtain ⟨body, hcut, hescaped⟩ := h.exists_body
  exact ⟨_, hcut, unquote_of_resolve (.inl rfl) (resolve_escaped hescaped)⟩

end Rust
end Ferrotype

/-
# Walks over characters

The loops of the lexer: over a run of characters, a quoted or a raw literal, a nested comment and
the parts of a number. Every turn of each of them takes at least one character, the last turn, which
takes the delimiter of a raw literal, included.
-/

import Ferrotype.Proofs.Cursor
import Ferrotype.Proofs.Rust.Spelling

namespace Ferrotype
namespace Rust

open Cursor

/-- A cursor in a source; it never goes back and never fails. -/
abbrev CharCursor := Cursor Char Empty Empty

namespace Walk

open Lexeme

/-! ## Runs -/

/-- A run of characters with a property. -/
def readRun (p : Char → Bool) : Unit → CharCursor (List Char) :=
  looping (fun _ cs => cs.head?.any p)
    (fun again _ => do
      let c ← take
      let more ← again ()
      pure (c ++ more))
    fun _ => []

/-- The loop over a run takes what `run` says. The induction is on the text. -/
theorem passes_readRun (p : Char → Bool) (cs : List Char) :
    Passes (readRun p ()) cs (run p cs).1 (run p cs).2 := by
  induction cs with
  | nil => exact passes_leave rfl
  | cons c cs ih =>
    have hle : (run p cs).2.length ≤ cs.length := (List.dropWhile_suffix p).length_le
    by_cases hc : p c
    · have hrun : run p (c :: cs) = (c :: (run p cs).1, (run p cs).2) := by
        simp [run, hc]
      rw [hrun]
      refine passes_turn (by simpa using hc) ?_ (Nat.lt_succ_of_le hle)
      exact (passes_take c cs).bind ((ih.guarded (Nat.lt_succ_self _)).bind (passes_pure _ _))
    · have hrun : run p (c :: cs) = ([], c :: cs) := by
        simp [run, hc]
      rw [hrun]
      exact passes_leave (by simpa using hc)

/-- The next character, if it is the given one. -/
def takeIf (d : Char) : CharCursor (List Char) := do
  if (← look).head? = some d then take else pure []

/-- A character that is asked for is taken. -/
theorem passes_takeIf (d : Char) (cs : List Char) : Passes (takeIf d) (d :: cs) [d] cs :=
  passes_look (passes_then rfl (passes_take d cs))

/-- Another one stays. -/
theorem passes_takeIf_of_ne {d : Char} {cs : List Char} (h : cs.head? ≠ some d) :
    Passes (takeIf d) cs [] cs :=
  passes_look (passes_else h (passes_pure _ _))

/-! ## Literals -/

/-- The content of a quoted literal; a backslash takes the next character with it. -/
def readQuoted (quote : Char) : Unit → CharCursor (List Char) :=
  looping (fun _ cs => cs.head?.any (· != quote))
    (fun again _ => do
      let escape ← takeIf '\\'
      let c ← take
      let more ← again ()
      pure (escape ++ c ++ more))
    fun _ => []

/-- The loop over a literal takes its content. A turn takes a character, or a backslash and the one
behind it. -/
theorem passes_readQuoted {quote : Char} (hquote : quote ≠ '\\') (cs : List Char) :
    Passes (readQuoted quote ()) cs (quotedTail quote cs).content
      ((quotedTail quote cs).closing ++ (quotedTail quote cs).rest) := by
  fun_induction quotedTail quote cs with
  | case1 => exact passes_leave rfl
  | case2 =>
    refine passes_turn (by simpa using hquote.symm) ?_ (Nat.lt_succ_self 0)
    refine (passes_takeIf '\\' []).bind (passes_take_nil.bind ?_)
    have hleave : Passes (readQuoted quote ()) [] [] [] := passes_leave rfl
    have hlt : ([] : List Char).length < ['\\'].length := Nat.lt_succ_self 0
    exact (hleave.guarded hlt).bind (passes_pure _ [])
  | case3 c cs ih =>
    refine passes_turn (by simpa using hquote.symm) ?_
      (Nat.lt_succ_of_le (Nat.le_succ_of_le ih.suffix.length_le))
    refine (passes_takeIf '\\' (c :: cs)).bind ((passes_take c cs).bind ?_)
    exact (ih.guarded (Nat.lt_succ_of_le (Nat.le_succ _))).bind (passes_pure _ _)
  | case4 cs => exact passes_leave (by simp)
  | case5 c cs hlast hescape hc ih =>
    have hplain : c ≠ '\\' := by
      rintro rfl
      cases cs with
      | nil => exact hlast rfl rfl
      | cons d ds => exact hescape d ds rfl rfl
    refine passes_turn (by simpa using hc) ?_ (Nat.lt_succ_of_le ih.suffix.length_le)
    refine (passes_takeIf_of_ne (by simpa using hplain)).bind ((passes_take c cs).bind ?_)
    exact (ih.guarded (Nat.lt_succ_self _)).bind (passes_pure _ _)

/-- The content of a raw literal and the delimiter that closes it. -/
def readRaw (hashes : Nat) : Unit → CharCursor (List Char × List Char) :=
  looping (fun _ cs => !cs.isEmpty)
    (fun again _ => do
      if (rawClosing hashes).isPrefixOf (← look) then do
        let closing ← takeAll (rawClosing hashes)
        pure ([], closing)
      else do
        let c ← take
        let more ← again ()
        pure (c ++ more.1, more.2))
    fun _ => ([], [])

/-- The loop over a raw literal takes its content and the closing delimiter. -/
theorem passes_readRaw (hashes : Nat) (cs : List Char) :
    Passes (readRaw hashes ()) cs ((rawTail hashes cs).content, (rawTail hashes cs).closing)
      (rawTail hashes cs).rest := by
  fun_induction rawTail hashes cs with
  | case1 => exact passes_leave rfl
  | case2 c cs hclose =>
    obtain ⟨rfl, hhashes⟩ := hclose
    obtain ⟨rest, rfl⟩ := List.isPrefixOf_iff_prefix.1 hhashes
    have hdrop : (List.replicate hashes '#' ++ rest).drop hashes = rest := by simp
    rw [hdrop]
    have hlt : rest.length < ('"' :: (List.replicate hashes '#' ++ rest)).length := by
      rw [List.length_cons, List.length_append]
      omega
    refine passes_turn rfl ?_ hlt
    refine passes_look (passes_then (by simp [rawClosing]) ?_)
    exact (passes_takeAll (rawClosing hashes) rest).bind (passes_pure _ _)
  | case3 c cs hopen ih =>
    refine passes_turn rfl ?_ (Nat.lt_succ_of_le ih.suffix.length_le)
    refine passes_look (passes_else ?_ ((passes_take c cs).bind ?_))
    · intro hclose
      simp only [rawClosing, List.isPrefixOf, Bool.and_eq_true, beq_iff_eq] at hclose
      exact hopen ⟨hclose.1.symm, hclose.2⟩
    · exact (ih.guarded (Nat.lt_succ_self _)).bind (passes_pure _ _)

/-! ## Comments -/

/-- The content of a block comment and the delimiter that closes it, where `depth` comments are
open. -/
def readBlock : Nat → CharCursor (List Char × List Char) :=
  looping (fun depth cs => !cs.isEmpty && depth != 0)
    (fun again depth => do
      let cs ← look
      if ['/', '*'].isPrefixOf cs then do
        let opening ← takeAll ['/', '*']
        let more ← again (depth + 1)
        pure (opening ++ more.1, more.2)
      else if ['*', '/'].isPrefixOf cs then do
        let closing ← takeAll ['*', '/']
        let more ← again (depth - 1)
        pure (if depth = 1 then (more.1, closing ++ more.2) else (closing ++ more.1, more.2))
      else do
        let c ← take
        let more ← again depth
        pure (c ++ more.1, more.2))
    fun _ => ([], [])

/-- The loop over a comment takes its content, and the delimiter that closes it if the depth gets to
zero. -/
theorem passes_readBlock (depth : Nat) (cs : List Char) :
    Passes (readBlock (depth + 1)) cs ((blockTail depth cs).content, (blockTail depth cs).closing)
      (blockTail depth cs).rest := by
  fun_induction blockTail depth cs with
  | case1 => exact passes_leave rfl
  | case2 depth cs ih =>
    refine passes_turn (by simp) ?_ (Nat.lt_succ_of_le (Nat.le_succ_of_le ih.suffix.length_le))
    refine passes_look (passes_then (by simp) ((passes_takeAll ['/', '*'] cs).bind ?_))
    exact (ih.guarded (Nat.lt_succ_of_le (Nat.le_succ _))).bind (passes_pure _ _)
  | case3 cs =>
    refine passes_turn (by simp) ?_ (Nat.lt_succ_of_le (Nat.le_succ _))
    refine passes_look (passes_else (by simp) (passes_then (by simp) ?_))
    refine (passes_takeAll ['*', '/'] cs).bind ?_
    have hleave : Passes (readBlock 0) cs ([], []) cs := passes_leave (by simp)
    exact (hleave.guarded (Nat.lt_succ_of_le (Nat.le_succ _))).bind (passes_pure _ _)
  | case4 depth cs ih =>
    refine passes_turn (by simp) ?_ (Nat.lt_succ_of_le (Nat.le_succ_of_le ih.suffix.length_le))
    refine passes_look (passes_else (by simp) (passes_then (by simp) ?_))
    refine (passes_takeAll ['*', '/'] cs).bind ?_
    exact (ih.guarded (Nat.lt_succ_of_le (Nat.le_succ _))).bind (passes_pure _ _)
  | case5 depth c cs hopen hclose hend ih =>
    refine passes_turn (by simp) ?_ (Nat.lt_succ_of_le ih.suffix.length_le)
    refine passes_look (passes_else ?_ (passes_else ?_ ((passes_take c cs).bind ?_)))
    · intro h
      obtain ⟨rest, heq⟩ := List.isPrefixOf_iff_prefix.1 h
      obtain ⟨rfl, rfl⟩ := List.cons.inj heq
      exact hopen rest rfl rfl
    · intro h
      obtain ⟨rest, heq⟩ := List.isPrefixOf_iff_prefix.1 h
      obtain ⟨rfl, rfl⟩ := List.cons.inj heq
      cases depth with
      | zero => exact hclose rest rfl rfl rfl
      | succ depth => exact hend depth rest rfl rfl rfl
    · exact (ih.guarded (Nat.lt_succ_self _)).bind (passes_pure _ _)

/-! ## Numbers -/

/-- Whether a decimal point and a digit come next. -/
def startsFraction : List Char → Bool
  | '.' :: c :: _ => c.isDigit
  | _ => false

/-- The decimal point and the digits after it. -/
def readFraction : CharCursor (List Char) := do
  if startsFraction (← look) then do
    let point ← take
    let digits ← readRun isNumberDigit ()
    pure (point ++ digits)
  else pure []

/-- The reader of fractions takes what `fraction` says. -/
theorem passes_readFraction (cs : List Char) :
    Passes readFraction cs (fraction cs).1 (fraction cs).2 := by
  refine passes_look ?_
  fun_cases fraction cs with
  | case1 c cs hdigit =>
    refine passes_then hdigit ((passes_take '.' (c :: cs)).bind ?_)
    exact (passes_readRun isNumberDigit (c :: cs)).bind (passes_pure _ _)
  | case2 c cs hdigit => exact passes_else hdigit (passes_pure _ _)
  | case3 cs hne =>
    refine passes_else ?_ (passes_pure _ _)
    fun_cases startsFraction cs with
    | case1 c cs => exact absurd rfl (hne c cs)
    | case2 => exact Bool.noConfusion

/-- Whether the letter of an exponent comes next. -/
def startsExponent (cs : List Char) : Bool := cs.head? = some 'e' || cs.head? = some 'E'

/-- Whether a sign comes next. -/
def startsSign (cs : List Char) : Bool := cs.head? = some '+' || cs.head? = some '-'

/-- The exponent of a number. -/
def readExponent : CharCursor (List Char) := do
  let cs ← look
  if startsExponent cs && startsWithDigit (cs.drop 1) then do
    let letter ← take
    let digits ← readRun isNumberDigit ()
    pure (letter ++ digits)
  else if startsExponent cs && startsSign (cs.drop 1) && startsWithDigit (cs.drop 2) then do
    let letter ← take
    let sign ← take
    let digits ← readRun isNumberDigit ()
    pure (letter ++ sign ++ digits)
  else pure []

/-- The reader of exponents takes what `exponent` says. -/
theorem passes_readExponent (cs : List Char) :
    Passes readExponent cs (exponent cs).1 (exponent cs).2 := by
  refine passes_look ?_
  fun_cases exponent cs with
  | case1 => exact passes_else (by decide) (passes_else (by decide) (passes_pure _ []))
  | case2 e cs hdigit =>
    refine passes_then (by simpa [startsExponent] using hdigit) ((passes_take e cs).bind ?_)
    exact (passes_readRun isNumberDigit cs).bind (passes_pure _ _)
  | case3 e hdigit =>
    refine passes_else (by simpa [startsExponent] using hdigit) (passes_else ?_ (passes_pure _ _))
    simp [startsSign]
  | case4 e sign ds hsign hdigit =>
    refine passes_else (by simpa [startsExponent] using hdigit) (passes_then ?_ ?_)
    · simpa [startsExponent, startsSign, and_assoc] using hsign
    · refine (passes_take e _).bind ((passes_take sign ds).bind ?_)
      exact (passes_readRun isNumberDigit ds).bind (passes_pure _ _)
  | case5 e sign ds hsign hdigit =>
    refine passes_else (by simpa [startsExponent] using hdigit) (passes_else ?_ (passes_pure _ _))
    simpa [startsExponent, startsSign, and_assoc] using hsign

/-- What follows the first digit of a number. -/
def readNumber (first : Char) : CharCursor (List Char) := do
  let cs ← look
  if !first.isDigit || first == '0' && cs.head?.any isRadix then readRun Unicode.isWordChar ()
  else do
    let digits ← readRun isNumberDigit ()
    let fractional ← readFraction
    let power ← readExponent
    let suffix ← readRun Unicode.isWordChar ()
    pure (digits ++ fractional ++ power ++ suffix)

/-- The reader of numbers takes what `numberRest` says. -/
theorem passes_readNumber (first : Char) (cs : List Char) :
    Passes (readNumber first) cs (numberRest first cs).1 (numberRest first cs).2 := by
  refine passes_look ?_
  fun_cases numberRest first cs with
  | case1 hword => exact passes_then hword (passes_readRun _ cs)
  | case2 hword =>
    refine passes_else hword ((passes_readRun isNumberDigit cs).bind ?_)
    refine (passes_readFraction _).bind ((passes_readExponent _).bind ?_)
    exact (passes_readRun Unicode.isWordChar _).bind (passes_pure _ _)

end Walk
end Rust
end Ferrotype

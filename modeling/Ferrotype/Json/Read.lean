/-
# Reading JSON

A text holds one value with blanks around it. Each reader takes the characters that are left and
gives what it read and fewer characters. A fault names the number of characters that were left
where it was found, from which its position in the text follows.

Besides the finite numbers there are `NaN`, `Infinity` and `-Infinity`. Integers have at most 4300
digits. A half of a surrogate pair that stands alone is read as the replacement character.
-/

import Ferrotype.Json.Value
import Ferrotype.Parsed
import Ferrotype.Position
import Ferrotype.Text.Hexadecimal

namespace Ferrotype
namespace Json

/-! ## Faults -/

/-- What is wrong at a place of a text. -/
inductive Problem
  | byteOrderMark
  | noValue
  | noMemberName
  | noColon
  | noComma
  | moreText
  | openString
  | control
  | badEscape
  | badUnit
deriving Repr, DecidableEq

/-- The words for a problem. -/
def Problem.words : Problem → String
  | byteOrderMark => "Unexpected UTF-8 BOM (decode using utf-8-sig)"
  | noValue => "Expecting value"
  | noMemberName => "Expecting property name enclosed in double quotes"
  | noColon => "Expecting ':' delimiter"
  | noComma => "Expecting ',' delimiter"
  | moreText => "Extra data"
  | openString => "Unterminated string starting at"
  | control => "Invalid control character at"
  | badEscape => "Invalid \\escape"
  | badUnit => "Invalid \\uXXXX escape"

/-- Why a text holds no value. -/
inductive Fault
  /-- There is a problem with so many characters left. -/
  | malformed (problem : Problem) (left : Nat)
  /-- An integer has more digits than are read. -/
  | longInteger (digits : Nat)
deriving Repr, DecidableEq

/-- Where a text stops that has the given number of characters. -/
def placeText (text : List Char) (count : Nat) : String :=
  let p := Position.start.after (text.take count)
  "line " ++ toString p.line ++ " column " ++ toString p.column ++
    " (char " ++ toString count ++ ")"

/-- The text of a fault in a text. -/
def Fault.message (text : List Char) : Fault → String
  | malformed problem left => problem.words ++ ": " ++ placeText text (text.length - left)
  | longInteger digits =>
    "Exceeds the limit (4300 digits) for integer string conversion: value has " ++
      toString digits ++ " digits; use sys.set_int_max_str_digits() to increase the limit"

/-! ## Results -/

/-- What was read and the characters after it, of which there are fewer than `n`. -/
abbrev Parsed (α : Type) (n : Nat) := Ferrotype.Parsed Char α n

/-- What a reader gives. -/
abbrev Result (α : Type) := Except Fault α

/-! ## Blanks -/

/-- Whether a character may stand between the parts of a value. -/
def isBlank (c : Char) : Bool := c == ' ' || c == '\t' || c == '\n' || c == '\r'

/-- A text without its leading blanks. -/
def skipBlanks (cs : List Char) : List Char := cs.dropWhile isBlank

theorem length_skipBlanks_le (cs : List Char) : (skipBlanks cs).length ≤ cs.length :=
  (List.dropWhile_sublist _).length_le

/-- The first character that is no blank. -/
def next (cs : List Char) : Option (Parsed Char cs.length) :=
  match h : skipBlanks cs with
  | [] => none
  | c :: rest => some ⟨c, rest, by
      have := length_skipBlanks_le cs
      rw [h] at this
      exact this⟩

/-! ## Strings -/

/-- The character that an escape of one letter stands for. -/
def escaped? : Char → Option Char
  | '"' => some '"'
  | '\\' => some '\\'
  | '/' => some '/'
  | 'b' => some '\x08'
  | 'f' => some '\x0c'
  | 'n' => some '\n'
  | 'r' => some '\r'
  | 't' => some '\t'
  | _ => none

/-- The unit that four hexadecimal digits stand for; a character has to follow them. -/
def unit? : List Char → Option (Nat × List Char)
  | a :: b :: c :: d :: e :: rest =>
    ([a, b, c, d].mapM Text.Hexadecimal.value?).map fun digits =>
      (digits.foldl (fun n digit => 16 * n + digit) 0, e :: rest)
  | _ => none

/-- Behind the digits of an escape less is left. -/
theorem length_of_unit? {cs : List Char} {n : Nat} {rest : List Char}
    (h : unit? cs = some (n, rest)) : rest.length < cs.length := by
  unfold unit? at h
  split at h
  · simp only [Option.map_eq_some_iff, Prod.mk.injEq] at h
    obtain ⟨_, _, _, rfl⟩ := h
    simp only [List.length_cons]
    omega
  · simp at h

/-- Whether a unit is the first half of a surrogate pair. -/
def isHigh (n : Nat) : Bool := 0xD800 ≤ n && n ≤ 0xDBFF

/-- Whether a unit is the second half of a surrogate pair. -/
def isLow (n : Nat) : Bool := 0xDC00 ≤ n && n ≤ 0xDFFF

/-- The character of a surrogate pair. -/
def pairChar (high low : Nat) : Char :=
  Char.ofNat (0x10000 + (high - 0xD800) * 0x400 + (low - 0xDC00))

/-- The character of a unit that stands alone. One half of a pair is no character, and U+FFFD stands
for it: neither is in a word of a source, which is what the texts of a configuration are compared
with. -/
def unitChar (n : Nat) : Char := if isHigh n || isLow n then '\uFFFD' else Char.ofNat n

/-- The character that starts with a unit, and what is left: a first half takes the second half that
follows it. -/
def finishPair (unit : Nat) (rest : List Char) : Result (Char × List Char) :=
  match rest with
  | '\\' :: 'u' :: more =>
    if isHigh unit && 5 ≤ more.length then
      match unit? more with
      | none => .error (.malformed .badUnit (more.length + 1))
      | some (low, after) =>
        .ok (if isLow low then (pairChar unit low, after) else (unitChar unit, rest))
    else .ok (unitChar unit, rest)
  | _ => .ok (unitChar unit, rest)

/-- Behind the second escape of a pair no more is left. -/
theorem length_of_finishPair {unit : Nat} {rest after : List Char} {c : Char}
    (h : finishPair unit rest = .ok (c, after)) : after.length ≤ rest.length := by
  unfold finishPair at h
  split at h
  · split at h
    · split at h
      · simp at h
      · rename_i hunit
        have := length_of_unit? hunit
        simp only [Except.ok.injEq] at h
        split at h <;> simp only [Prod.mk.injEq] at h <;> obtain ⟨_, rfl⟩ := h <;>
          simp only [List.length_cons] <;> omega
    · simp_all
  · simp_all

/-- The character of an escape, of which the backslash has been read. -/
def escapedChar (opened : Nat) : (cs : List Char) → Result (Parsed Char cs.length)
  | [] => .error (.malformed .openString opened)
  | 'u' :: cs =>
    match hunit : unit? cs with
    | none => .error (.malformed .badUnit (cs.length + 1))
    | some (unit, rest) =>
      match hpair : finishPair unit rest with
      | .error e => .error e
      | .ok (c, after) => .ok ⟨c, after, by
          have := length_of_unit? hunit
          have := length_of_finishPair hpair
          simp only [List.length_cons]
          omega⟩
  | c :: cs =>
    match escaped? c with
    | none => .error (.malformed .badEscape (cs.length + 2))
    | some plain => .ok (.past plain c cs)

/-- The characters of a string up to its closing quote. The number of characters that were left at
its opening quote is handed along for the fault that names it. -/
def stringFrom (opened : Nat) (cs : List Char) : Result (Parsed (List Char) cs.length) :=
  match cs with
  | [] => .error (.malformed .openString opened)
  | c :: rest =>
    if c = '"' then .ok (.past [] c rest)
    else if c = '\\' then
      match escapedChar opened rest with
      | .error e => .error e
      | .ok first =>
        match stringFrom opened first.rest with
        | .error e => .error e
        | .ok more => .ok ((more.map (first.value :: ·)).widen (Nat.le_of_lt first.shorter)).later
    else if c < ' ' then .error (.malformed .control (rest.length + 1))
    else
      match stringFrom opened rest with
      | .error e => .error e
      | .ok more => .ok (more.map (c :: ·)).later
termination_by cs.length
decreasing_by
  · exact Nat.lt_succ_of_lt first.shorter
  · exact Nat.lt_succ_self _

/-- The string whose opening quote has been read. -/
def string (cs : List Char) : Result (Parsed String cs.length) :=
  (stringFrom (cs.length + 1) cs).map (·.map String.ofList)

/-! ## Numbers -/

/-- Whether a character is one of the ten digits. -/
def isDigit (c : Char) : Bool := '0' ≤ c && c ≤ '9'

/-- The number that digits stand for. -/
def naturalOf (digits : List Char) : Nat :=
  digits.foldl (fun n c => 10 * n + (c.toNat - 48)) 0

/-- The digits before the point: a zero alone, or digits of which the first is none. -/
def wholeDigits (cs : List Char) : List Char :=
  match cs with
  | '0' :: _ => ['0']
  | _ => cs.takeWhile isDigit

/-- The digits after a point; without digits there is no point. -/
def fractionDigits (cs : List Char) : List Char :=
  match cs with
  | '.' :: rest => rest.takeWhile isDigit
  | _ => []

/-- What is left after a point and so many digits. -/
def dropFraction (digits : List Char) (cs : List Char) : List Char :=
  if digits = [] then cs else cs.drop (digits.length + 1)

/-- An exponent and what is left after it; without digits there is none. -/
def exponent? (cs : List Char) : Option (Int × List Char) :=
  match cs with
  | e :: rest =>
    if e = 'e' ∨ e = 'E' then
      let signed := rest.head? = some '-' ∨ rest.head? = some '+'
      let unsigned := if signed then rest.drop 1 else rest
      let digits := unsigned.takeWhile isDigit
      let size := Int.ofNat (naturalOf digits)
      if digits = [] then none
      else some (if rest.head? = some '-' then -size else size, unsigned.drop digits.length)
    else none
  | [] => none

/-- Behind an exponent less is left. -/
theorem length_of_exponent? {cs rest : List Char} {e : Int} (h : exponent? cs = some (e, rest)) :
    rest.length ≤ cs.length := by
  unfold exponent? at h
  split at h
  · split at h
    · simp only [Option.ite_none_left_eq_some, Option.some.injEq, Prod.mk.injEq] at h
      obtain ⟨_, _, rfl⟩ := h
      split <;> simp only [List.length_drop, List.length_cons] <;> omega
    · simp at h
  · simp at h

/-- The number of digits above which no integer is read. -/
def digitLimit : Nat := 4300

/-- The number after its sign, if one is there. -/
def unsigned? (negative : Bool) (cs : List Char) : Option (Result (Parsed Number cs.length)) :=
  let whole := wholeDigits cs
  if hwhole : whole = [] then none
  else
    let behind := cs.drop whole.length
    have hbehind : behind.length < cs.length := by
      have hpos : 0 < whole.length := List.length_pos_iff.mpr hwhole
      have hne : cs ≠ [] := by
        rintro rfl
        simp [whole, wholeDigits] at hwhole
      have := List.length_pos_iff.mpr hne
      simp only [behind, List.length_drop]
      omega
    let fraction := fractionDigits behind
    let tail := dropFraction fraction behind
    have htail : tail.length ≤ behind.length := by
      simp only [tail, dropFraction]
      split <;> simp
    let decimal := fun (e : Int) =>
      Number.decimal negative (naturalOf (whole ++ fraction)) (e - Int.ofNat fraction.length)
    match h : exponent? tail with
    | some (e, rest) => some (.ok ⟨decimal e, rest, by have := length_of_exponent? h; omega⟩)
    | none =>
      if fraction = [] ∧ digitLimit < whole.length then some (.error (.longInteger whole.length))
      else some (.ok ⟨decimal 0, tail, by omega⟩)

/-! ## Values -/

/-- The words that stand for values, with what they stand for. -/
def words : List (List Char × Value) := [
    ("null".toList, .null), ("true".toList, .bool true), ("false".toList, .bool false),
    ("NaN".toList, .number .notFinite), ("Infinity".toList, .number .notFinite),
    ("-Infinity".toList, .number .notFinite)]

/-- The word at the start of a text. -/
def word? (cs : List Char) : Option (List Char × Value) :=
  words.find? (·.1.isPrefixOf cs)

/-- Behind a word less is left. -/
theorem length_of_word? {cs : List Char} {w : List Char × Value} (h : word? cs = some w) :
    (cs.drop w.1.length).length < cs.length := by
  have hprefix := List.find?_some h
  have hmem := List.mem_of_find?_eq_some h
  have hpos : 0 < w.1.length := by
    simp only [words, List.mem_cons, List.not_mem_nil, or_false] at hmem
    rcases hmem with rfl | rfl | rfl | rfl | rfl | rfl <;> decide
  have hle := (List.isPrefixOf_iff_prefix.mp hprefix).length_le
  rw [List.length_drop]
  omega

/-- The number at the start of a text. -/
def number (cs : List Char) : Result (Parsed Number cs.length) :=
  match cs with
  | '-' :: rest =>
    match unsigned? true rest with
    | none => .error (.malformed .noValue (rest.length + 1))
    | some r => r.map (·.later)
  | cs => (unsigned? false cs).getD (.error (.malformed .noValue cs.length))

/-- A word or a number. -/
def scalar (cs : List Char) : Result (Parsed Value cs.length) :=
  match h : word? cs with
  | some w => .ok ⟨w.2, cs.drop w.1.length, length_of_word? h⟩
  | none => (number cs).map (·.map Value.number)

mutual

/-- The value at the start of a text. -/
def value (cs : List Char) : Result (Parsed Value cs.length) :=
  match cs with
  | '"' :: rest => (string rest).map fun t => (t.map Value.string).later
  | '[' :: rest =>
    have := length_skipBlanks_le rest
    match next rest with
    | none => .error (.malformed .noValue 0)
    | some c =>
      if c.value = ']' then .ok (c.map fun _ => Value.array []).later
      else (elements (skipBlanks rest)).map fun t => ((t.map Value.array).widen this).later
  | '\x7b' :: rest =>
    have := length_skipBlanks_le rest
    match next rest with
    | none => .error (.malformed .noMemberName 0)
    | some c =>
      if c.value = '\x7d' then .ok (c.map fun _ => Value.object []).later
      else (members (skipBlanks rest)).map fun t => ((t.map Value.object).widen this).later
  | cs => scalar cs
termination_by (cs.length, 0)

/-- The elements of an array up to its closing bracket. -/
def elements (cs : List Char) : Result (Parsed (List Value) cs.length) :=
  match value cs with
  | .error e => .error e
  | .ok first =>
    match next first.rest with
    | none => .error (.malformed .noComma 0)
    | some c =>
      have := first.shorter
      have := c.shorter
      have := length_skipBlanks_le c.rest
      if c.value = ']' then .ok ⟨[first.value], c.rest, by omega⟩
      else if c.value = ',' then
        (elements (skipBlanks c.rest)).map fun more =>
          (more.map (first.value :: ·)).widen (by omega)
      else .error (.malformed .noComma (c.rest.length + 1))
termination_by (cs.length, 1)

/-- The members of an object up to its closing brace. -/
def members (cs : List Char) : Result (Parsed (List (String × Value)) cs.length) :=
  match cs with
  | '"' :: rest =>
    match string rest with
    | .error e => .error e
    | .ok name =>
      match next name.rest with
      | none => .error (.malformed .noColon 0)
      | some colon =>
        if colon.value = ':' then
          have := name.shorter
          have := colon.shorter
          have := length_skipBlanks_le colon.rest
          match value (skipBlanks colon.rest) with
          | .error e => .error e
          | .ok first =>
            match next first.rest with
            | none => .error (.malformed .noComma 0)
            | some c =>
              have := first.shorter
              have := c.shorter
              have := length_skipBlanks_le c.rest
              if c.value = '\x7d' then
                .ok ⟨[(name.value, first.value)], c.rest, by simp only [List.length_cons]; omega⟩
              else if c.value = ',' then
                (members (skipBlanks c.rest)).map fun more =>
                  (more.map ((name.value, first.value) :: ·)).widen (by
                    simp only [List.length_cons]; omega)
              else .error (.malformed .noComma (c.rest.length + 1))
        else .error (.malformed .noColon (colon.rest.length + 1))
  | cs => .error (.malformed .noMemberName cs.length)
termination_by (cs.length, 0)

end

/-- The value that a text holds. -/
def read (text : List Char) : Result Value :=
  if text.head? = some '\uFEFF' then .error (.malformed .byteOrderMark text.length)
  else
    match value (skipBlanks text) with
    | .error e => .error e
    | .ok t =>
      if skipBlanks t.rest = [] then .ok t.value
      else .error (.malformed .moreText (skipBlanks t.rest).length)

end Json
end Ferrotype

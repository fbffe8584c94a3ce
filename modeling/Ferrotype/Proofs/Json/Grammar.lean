/-
# A grammar of JSON

`Derives` says which texts are values, elements, members and lists of them, as the usual grammar of
JSON has it: an element is a value with blanks around it, and a text is one element. Besides the
three words of JSON there are `NaN`, `Infinity` and `-Infinity`.

`Awaits` says which texts stand in front of a value that comes next, so that nothing is wrong up to
there whatever comes behind it. A reader that gives up on an integer with too many digits gives up
on a text that `Stops`.
-/

import Ferrotype.Json.Read
import Ferrotype.Proofs.Text.Hexadecimal

namespace Ferrotype
namespace Json

/-! ## Strings -/

/-- Characters that may stand between the parts of a value. -/
def Blanks (cs : List Char) : Prop := ∀ c ∈ cs, isBlank c

/-- What stands between the quotes of a string. -/
inductive Chars : List Char → Prop
  | nil : Chars []
  | plain {c : Char} {cs : List Char} (hspace : ' ' ≤ c) (hquote : c ≠ '"') (hbackslash : c ≠ '\\')
      (h : Chars cs) : Chars (c :: cs)
  | letter {e : Char} {cs : List Char} (he : e ∈ ['"', '\\', '/', 'b', 'f', 'n', 'r', 't'])
      (h : Chars cs) : Chars ('\\' :: e :: cs)
  | unit {digits cs : List Char} (hlength : digits.length = 4)
      (hdigits : ∀ d ∈ digits, Text.Hexadecimal.isDigit d) (h : Chars cs) :
      Chars ('\\' :: 'u' :: (digits ++ cs))

/-! ## Numbers -/

/-- At least one digit. -/
def Digits (cs : List Char) : Prop := cs ≠ [] ∧ ∀ c ∈ cs, isDigit c

/-- The digits before the point: a zero, or digits of which the first is none. -/
inductive Whole : List Char → Prop
  | zero : Whole ['0']
  | digits {c : Char} {cs : List Char} (hc : isDigit c) (hzero : c ≠ '0')
      (hcs : ∀ d ∈ cs, isDigit d) : Whole (c :: cs)

/-- The digits of a number begin with one. -/
theorem Whole.exists_cons {whole : List Char} (h : Whole whole) :
    ∃ d ds, whole = d :: ds ∧ isDigit d := by
  cases h with
  | zero => exact ⟨'0', [], rfl, rfl⟩
  | digits hc _ _ => exact ⟨_, _, rfl, hc⟩

/-- The point with the digits behind it, if there is one. -/
inductive Fraction : List Char → Prop
  | none : Fraction []
  | some {digits : List Char} (h : Digits digits) : Fraction ('.' :: digits)

/-- The exponent, if there is one. -/
inductive Exponent : List Char → Prop
  | none : Exponent []
  | some {e : Char} {sign digits : List Char} (he : e = 'e' ∨ e = 'E')
      (hsign : sign ∈ [[], ['+'], ['-']]) (h : Digits digits) : Exponent (e :: (sign ++ digits))

/-- A number. -/
inductive IsNumber : List Char → Prop
  | mk {sign whole fraction exponent : List Char} (hsign : sign ∈ [[], ['-']])
      (hwhole : Whole whole) (hfraction : Fraction fraction) (hexponent : Exponent exponent) :
      IsNumber (sign ++ (whole ++ (fraction ++ exponent)))

/-- Whether a text goes on with the integer in front of it: with a digit, or with a fraction or an
exponent. -/
def GoesOn (cs : List Char) : Prop :=
  ∃ more, more ≠ [] ∧ more <+: cs ∧ (Digits more ∨ Fraction more ∨ Exponent more)

/-- A text that starts with an integer of more than 4300 digits. -/
inductive StartsLong : List Char → Prop
  | mk {sign whole rest : List Char} (hsign : sign ∈ [[], ['-']]) (hwhole : Whole whole)
      (hlong : 4300 < whole.length) (hrest : ¬ GoesOn rest) : StartsLong (sign ++ (whole ++ rest))

/-! ## Values -/

/-- What brackets hold: elements, or members with names. -/
inductive Group
  | array | object

namespace Group

/-- The bracket that opens a group. -/
def opening : Group → Char
  | array => '['
  | object => '\x7b'

/-- The bracket that closes a group. -/
def closing : Group → Char
  | array => ']'
  | object => '\x7d'

end Group

/-- The parts that texts are made of. -/
inductive Part
  | value
  | item (g : Group)
  | items (g : Group)

/-- The words that are values: the three of JSON, and three for what is no number there. -/
def valueWords : List (List Char) :=
  ["null".toList, "true".toList, "false".toList, "NaN".toList, "Infinity".toList,
    "-Infinity".toList]

/-- **The grammar of JSON.** -/
inductive Derives : Part → List Char → Prop
  | word {cs : List Char} (h : cs ∈ valueWords) : Derives .value cs
  | number {cs : List Char} (h : IsNumber cs) : Derives .value cs
  | string {cs : List Char} (h : Chars cs) : Derives .value ('"' :: (cs ++ ['"']))
  | empty {g : Group} {blanks : List Char} (h : Blanks blanks) :
      Derives .value (g.opening :: (blanks ++ [g.closing]))
  | group {g : Group} {cs : List Char} (h : Derives (.items g) cs) :
      Derives .value (g.opening :: (cs ++ [g.closing]))
  | element {before cs after : List Char} (hbefore : Blanks before) (hafter : Blanks after)
      (h : Derives .value cs) : Derives (.item .array) (before ++ (cs ++ after))
  | member {before name after cs : List Char} (hbefore : Blanks before) (hname : Chars name)
      (hafter : Blanks after) (h : Derives (.item .array) cs) :
      Derives (.item .object) (before ++ '"' :: (name ++ '"' :: (after ++ ':' :: cs)))
  | last {g : Group} {cs : List Char} (h : Derives (.item g) cs) : Derives (.items g) cs
  | more {g : Group} {cs ds : List Char} (h : Derives (.item g) cs)
      (hmore : Derives (.items g) ds) : Derives (.items g) (cs ++ ',' :: ds)

/-- A text that holds a value. -/
def IsJson (text : List Char) : Prop := Derives (.item .array) text

/-- A text that holds an object. -/
def IsObject (text : List Char) : Prop :=
  ∃ before cs after, Blanks before ∧ Blanks after ∧ Derives .value (Group.object.opening :: cs) ∧
    text = before ++ (Group.object.opening :: cs ++ after)

/-! ## Beginnings -/

/-- The texts in front of a value. -/
inductive Awaits : Part → List Char → Prop
  | here : Awaits .value []
  | group {g : Group} {cs : List Char} (h : Awaits (.items g) cs) : Awaits .value (g.opening :: cs)
  | element {before cs : List Char} (hbefore : Blanks before) (h : Awaits .value cs) :
      Awaits (.item .array) (before ++ cs)
  | member {before name after cs : List Char} (hbefore : Blanks before) (hname : Chars name)
      (hafter : Blanks after) (h : Awaits (.item .array) cs) :
      Awaits (.item .object) (before ++ '"' :: (name ++ '"' :: (after ++ ':' :: cs)))
  | first {g : Group} {cs : List Char} (h : Awaits (.item g) cs) : Awaits (.items g) cs
  | later {g : Group} {cs ds : List Char} (h : Derives (.item g) cs)
      (hlater : Awaits (.items g) ds) : Awaits (.items g) (cs ++ ',' :: ds)

/-- A text whose next value is, somewhere, an integer of more than 4300 digits. -/
def Stops (text : List Char) : Prop :=
  ∃ before after, text = before ++ after ∧ Awaits (.item .array) before ∧ StartsLong after

end Json
end Ferrotype

/-
# Numerals

A numeric literal without what only the source language has: the suffix that names its type, the
underscores between digits and a point at the end. Behind `0x`, `0o` and `0b` there is no suffix of
a floating-point type, since `f` is a digit there.

A line feed at the end of the text does not hide a suffix before it.
-/

namespace Ferrotype
namespace Rust
namespace Numeral

/-- The suffixes of the integer types. -/
def integerSuffixes : List (List Char) :=
  ["i8", "i16", "i32", "i64", "i128", "isize", "u8", "u16", "u32", "u64", "u128",
    "usize"].map String.toList

/-- The suffixes of the floating-point types. -/
def floatSuffixes : List (List Char) := ["f32", "f64"].map String.toList

/-- A text cut before a line feed at its end. -/
def cutNewline (cs : List Char) : List Char × List Char :=
  if cs.getLast? = some '\n' then (cs.dropLast, ['\n']) else (cs, [])

/-- A text without the underscores at its end. -/
def dropUnderscores (cs : List Char) : List Char := (cs.reverse.dropWhile (· == '_')).reverse

/-- A numeral without a suffix from the list and the underscores before it. -/
def stripSuffix (suffixes : List (List Char)) (cs : List Char) : List Char :=
  let body := (cutNewline cs).1
  match suffixes.find? (·.isSuffixOf body) with
  | some suffix => dropUnderscores (body.take (body.length - suffix.length)) ++ (cutNewline cs).2
  | none => cs

/-- Whether a numeral announces hexadecimal, octal or binary digits. -/
def hasRadix : List Char → Bool
  | '0' :: c :: _ => c.toLower == 'x' || c.toLower == 'o' || c.toLower == 'b'
  | _ => false

/-- A numeral without its suffix. -/
def stripType (cs : List Char) : List Char :=
  if hasRadix cs then stripSuffix integerSuffixes cs
  else stripSuffix floatSuffixes (stripSuffix integerSuffixes cs)

/-- A text without a point at its end. -/
def dropPoint (cs : List Char) : List Char := if cs.getLast? = some '.' then cs.dropLast else cs

/-- A numeral in plain form. -/
def plainChars (cs : List Char) : List Char := dropPoint ((stripType cs).filter (· != '_'))

/-- A numeral in plain form. -/
def plain (text : String) : String := String.ofList (plainChars text.toList)

end Numeral
end Rust
end Ferrotype

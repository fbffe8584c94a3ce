/-
# JSON values

A number is kept as the decimal that was written, since all that is asked of it is whether it is
zero. It counts as zero if the nearest double is: if it is at most half of the least positive
double, which is two to the power of -1074.
-/

namespace Ferrotype
namespace Json

/-- A number: a decimal `± mantissa * 10 ^ exponent`, or one that is not finite. -/
inductive Number
  | decimal (negative : Bool) (mantissa : Nat) (exponent : Int)
  | notFinite
deriving Repr, DecidableEq

/-- Whether `mantissa * 10 ^ (-places)` is at most two to the power of -1075. With so many places
that it is less than `10 ^ (-324)`, the powers need not be compared. -/
def underflows (mantissa places : Nat) : Bool :=
  (toString mantissa).length + 324 ≤ places || mantissa * Nat.pow 2 1075 ≤ Nat.pow 10 places

/-- Whether a number counts as zero. -/
def Number.isZero : Number → Bool
  | .decimal _ mantissa (.ofNat _) => mantissa == 0
  | .decimal _ mantissa (.negSucc n) => underflows mantissa (n + 1)
  | .notFinite => false

/-- A value. The members of an object stand in the order in which they were written. -/
inductive Value
  | null
  | bool (b : Bool)
  | number (n : Number)
  | string (s : String)
  | array (elements : List Value)
  | object (members : List (String × Value))
deriving Repr, Inhabited

namespace Value

/-- Whether a value turns a setting on: all do, but for null, false, zero and what is empty. -/
def isOn : Value → Bool
  | null => false
  | bool b => b
  | number n => !n.isZero
  | string s => !s.isEmpty
  | array elements => !elements.isEmpty
  | object members => !members.isEmpty

/-- The text of a value that is one. -/
def text? : Value → Option String
  | string s => some s
  | _ => none

end Value

/-- The value of the last member with a name. -/
def lastMember? (name : String) (members : List (String × Value)) : Option Value :=
  members.reverse.lookup name

/-- The names of members, sorted and each once. -/
def memberNames (members : List (String × Value)) : List String :=
  ((members.map (·.1)).eraseDups).mergeSort (fun a b => decide (a ≤ b))

end Json
end Ferrotype

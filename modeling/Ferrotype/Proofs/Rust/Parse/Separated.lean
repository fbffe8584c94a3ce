/-
# Lists with commas

Type arguments, the elements of a tuple type and members are lists of one form: what follows one of
them is a comma and the others, or the bracket that closes the list. `parseSeparated` reads what
follows, and each of the three parsers is a reader of one member with `parseSeparated` behind it.
-/

import Ferrotype.Rust.Parse.Item

namespace Ferrotype
namespace Rust

section Separated

variable {α : Type} (eof : Token) (closer : Kind)
  (others : (ts : List Token) → Result (Parsed α ts.length)) (add : α → α) (last : α)
  (missing : Token → ParseError)

/-- What follows a member of a list: a comma and the other members, before whose values `add` puts
the member, or the closing bracket, with which `last` is the value. -/
def parseSeparated : (ts : List Token) → Result (Parsed α ts.length)
  | [] => .error (missing eof)
  | t :: ts =>
    if t.kind = .comma then do
      let more ← others ts
      .ok (more.map add).later
    else if t.kind = closer then .ok (.past last t ts)
    else .error (missing t)

variable {eof closer others add last missing}

/-- Something stands behind a member of a list. -/
theorem ne_nil_of_parseSeparated {ts : List Token} {p : Parsed α ts.length}
    (hp : parseSeparated eof closer others add last missing ts = .ok p) : ts ≠ [] := by
  rintro rfl
  cases hp

end Separated

section Equations

variable (eof : Token) {t : Token} {ts : List Token}

/-- What follows the type arguments that are known. -/
def argumentsBehind (known : List TypeExpr) :
    (ts : List Token) → Result (Parsed (List TypeExpr) ts.length) :=
  parseSeparated eof .gt (parseArguments eof) (known ++ ·) known
    (.expected .gt · .closingTypeArguments)

/-- An argument that is no type is passed over. -/
theorem parseArguments_of_skipped (hkind : t.kind ≠ .gt) {skipped : Parsed Unit (t :: ts).length}
    (hskipped : skippedArgument? t ts = some skipped) :
    parseArguments eof (t :: ts) = argumentsBehind eof [] skipped.rest >>= fun args =>
      .ok (args.widen (Nat.le_of_lt skipped.shorter)) := by
  rw [parseArguments, if_neg hkind]
  simp only [hskipped]
  obtain ⟨value, rest, hshorter⟩ := skipped
  cases rest with
  | nil => rfl
  | cons u us =>
    simp only [argumentsBehind, parseSeparated, Parsed.map, bind, Except.bind]
    split
    · cases parseArguments eof us <;> rfl
    · split <;> rfl

/-- Any other one is a type, and more may stand behind it. -/
theorem parseArguments_of_type (hkind : t.kind ≠ .gt) (hskipped : skippedArgument? t ts = none) :
    parseArguments eof (t :: ts) = parseType eof (t :: ts) >>= fun type =>
      argumentsBehind eof [type.value] type.rest >>= fun args =>
        .ok (args.widen (Nat.le_of_lt type.shorter)) := by
  rw [parseArguments, if_neg hkind]
  simp only [hskipped]
  cases parseType eof (t :: ts) with
  | error e => rfl
  | ok type =>
    obtain ⟨value, rest, hshorter⟩ := type
    cases rest with
    | nil => rfl
    | cons u us =>
      simp only [argumentsBehind, parseSeparated, Parsed.map, bind, Except.bind]
      split
      · cases parseArguments eof us <;> rfl
      · split <;> rfl

/-- What follows an element of a tuple. -/
def elementsBehind (element : TypeExpr) :
    (ts : List Token) → Result (Parsed (List TypeExpr × Bool) ts.length) :=
  parseSeparated eof .rparen (parseElements eof · true) (fun (es, comma) => (element :: es, comma))
    ([element], false) (.expected .comma · .betweenElements)

/-- An element is a type, and more may stand behind it. -/
theorem parseElements_cons (hkind : t.kind ≠ .rparen) (comma : Bool) :
    parseElements eof (t :: ts) comma = parseType eof (t :: ts) >>= fun element =>
      elementsBehind eof element.value element.rest >>= fun elements =>
        .ok (elements.widen (Nat.le_of_lt element.shorter)) := by
  rw [parseElements, if_neg hkind]
  cases parseType eof (t :: ts) with
  | error e => rfl
  | ok element =>
    obtain ⟨value, rest, hshorter⟩ := element
    cases rest with
    | nil => rfl
    | cons u us =>
      simp only [elementsBehind, parseSeparated, bind, Except.bind]
      split
      · cases parseElements eof us true <;> rfl
      · split <;> rfl

section Members

variable {α : Type} {closer : Kind} (separator : α → Place)
  (member : Preamble → (ts : List Token) → Result (Parsed α ts.length))

/-- What follows a member that stands behind a preamble. -/
def membersBehind (closer : Kind) (m : α) :
    (ts : List Token) → Result (Parsed (List α) ts.length) :=
  parseSeparated eof closer (members eof closer separator member) (m :: ·) [m]
    (.expected .comma · (separator m))

variable (hkind : t.kind ≠ closer) {p : Parsed Preamble ((t :: ts).length + 1)}
  (hp : preamble eof (t :: ts) = .ok p)
include hkind hp

/-- What stands in front of the closing token belongs to no member. -/
theorem members_of_closer (hclose : headKind p.rest = closer) :
    members eof closer separator member (t :: ts) =
      .ok ⟨[], p.rest.drop 1, length_drop_one_lt (Nat.le_of_lt_succ p.shorter)⟩ := by
  rw [members, if_neg hkind, hp]
  simp only [bind, Except.bind]
  rw [if_pos hclose]

/-- Any other token starts a member, and more may stand behind it. -/
theorem members_of_member (hclose : headKind p.rest ≠ closer) :
    members eof closer separator member (t :: ts) = member p.value p.rest >>= fun m =>
      membersBehind eof separator member closer m.value m.rest >>= fun ms =>
        .ok (ms.widen (Nat.le_trans (Nat.le_of_lt m.shorter) (Nat.le_of_lt_succ p.shorter))) := by
  rw [members, if_neg hkind, hp]
  simp only [bind, Except.bind]
  rw [if_neg hclose]
  cases member p.value p.rest with
  | error e => rfl
  | ok m =>
    obtain ⟨value, rest, hshorter⟩ := m
    cases rest with
    | nil => rfl
    | cons u us =>
      simp only [membersBehind, parseSeparated, bind, Except.bind]
      split
      · cases members eof closer separator member us <;> rfl
      · split <;> rfl

end Members

end Equations

end Rust
end Ferrotype

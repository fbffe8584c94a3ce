/-
# Discriminants of enumerations

A member of an enumeration is given the discriminant of its variant as it is spelled, and nothing is
taken off a literal on the way, as it is for the value of a constant. `translate_discriminants` says
which integer literals are numbers that way: those without a suffix whose underscores stand between
digits and that have no spare zero. The literal of a byte never is one; what is left of it is the
literal of a string.
-/

import Ferrotype.Proofs.Rust.Plain.Discriminant
import Ferrotype.Proofs.Translate.NumericConstant
import Ferrotype.Proofs.Translate.Settings
import Ferrotype.Proofs.TypeScript.Separator

namespace Ferrotype

/-! ## Integer literals as they are spelled -/

namespace Rust

open TypeScript (announcedBase base? decimalValue?_eq_none isMantissa isSeparated isSeparated_cons
  separatedValue? unsignedSeparated? unsignedValue?)

/-- What announces no base has decimal digits. -/
theorem announcedBase_of_hasRadix {cs : List Char} (h : Numeral.hasRadix cs = false) :
    announcedBase cs = 10 := by
  fun_cases announcedBase cs with
  | case1 c cs =>
    rw [base?_eq_none h]
    rfl
  | case2 => rfl

/-- The first letter of a suffix is no digit of any base. -/
theorem exists_cons_of_mem_integerSuffixes {s : List Char} (hs : s ∈ Numeral.integerSuffixes) :
    ∃ c cs, s = c :: cs ∧ (∀ base, Text.isDigitOf base c = false) ∧ isMantissa c ∧ c ≠ '.' := by
  cases s with
  | nil => exact absurd hs (by decide)
  | cons c cs =>
    refine ⟨c, cs, rfl, fun base => ?_, ?_⟩
    · rcases head?_of_mem_integerSuffixes hs rfl with rfl | rfl <;> rfl
    · rcases head?_of_mem_integerSuffixes hs rfl with rfl | rfl <;> decide

namespace NumericLiteral

/-- Whether an integer literal is read as its number as it stands: its underscores stand between
digits, and it has neither a suffix nor a spare zero. -/
def isShared (literal : NumericLiteral) : Bool :=
  literal.suffix.isEmpty && isSeparated literal.base false literal.digits && !literal.hasSpareZero

variable {literal : NumericLiteral} (h : literal.isWritable)
include h

/-- Without its underscores a literal is the plain one with its suffix. -/
theorem digitsOf_chars : digitsOf literal.chars = literal.plain.chars ++ literal.suffix := by
  have hnone : ∀ suffix ∈ [] :: suffixes, '_' ∉ suffix := by decide
  rw [chars_eq, digitsOf_append, digitsOf_bodyChars h, digitsOf_of_notMem (hnone _ (suffix_mem h))]

variable (hinteger : literal.isInteger)
include hinteger

/-- An integer has the suffix of one or none. -/
theorem suffix_of_isInteger : literal.suffix = [] ∨ literal.suffix ∈ Numeral.integerSuffixes := by
  cases literal with
  | radix r digits suffix =>
    simp only [isWritable, Bool.and_eq_true, List.contains_iff_mem, List.mem_cons] at h
    exact h.2
  | decimal whole fraction exponent suffix =>
    simp only [isInteger, Bool.and_eq_true, Bool.not_eq_true', List.contains_eq_mem,
      decide_eq_false_iff_not] at hinteger
    simp only [isWritable, Bool.and_eq_true, Bool.or_eq_true, List.contains_iff_mem,
      List.mem_cons] at h
    obtain ⟨-, (hnone | hfloat) | ⟨-, hsuffix⟩⟩ := h
    · exact .inl hnone
    · exact absurd hfloat hinteger.2
    · exact .inr hsuffix

/-- The base of the digits is announced, and nothing is separated in front of them. -/
theorem isSeparated_chars (hsuffix : literal.suffix = []) :
    isSeparated (announcedBase literal.chars) false literal.chars =
      isSeparated literal.base false literal.digits := by
  cases literal with
  | radix r digits suffix =>
    obtain rfl : suffix = [] := hsuffix
    have hletter : r.letter ≠ '_' ∧ Text.isDigitOf r.base r.letter = false ∧
        base? r.letter = some r.base := by cases r <;> decide
    rw [chars, List.append_nil, announcedBase, hletter.2.2, Option.getD_some,
      isSeparated_cons (by decide), isSeparated_cons hletter.1, hletter.2.1]
    rfl
  | decimal whole fraction exponent suffix =>
    obtain rfl : suffix = [] := hsuffix
    rw [announcedBase_of_hasRadix (hasRadix_decimal h)]
    simp only [isInteger, Bool.and_eq_true, Option.isNone_iff_eq_none] at hinteger
    rw [hinteger.1.1, hinteger.1.2, chars, List.append_nil]
    simp [fractionChars, exponentChars, base, digits]

/-- No number goes on with a suffix. -/
theorem unsignedValue?_suffixed (hsuffix : literal.suffix ∈ Numeral.integerSuffixes) :
    unsignedValue? (literal.plain.chars ++ literal.suffix) = none := by
  obtain ⟨c, cs, hcons, hdigit, hmantissa, hpoint⟩ := exists_cons_of_mem_integerSuffixes hsuffix
  cases literal with
  | radix r digits suffix =>
    obtain rfl : suffix = c :: cs := hcons
    have hbase : base? r.letter = some r.base := by cases r <;> decide
    have hnatural : Text.natural? r.base (digitsOf digits ++ c :: cs) = none :=
      Text.natural?_eq_none (by simp) (hdigit _)
    rw [plain, chars, List.append_nil, NumericLiteral.suffix, List.cons_append, List.cons_append,
      unsignedValue?, hbase]
    simp only [hnatural]
    rfl
  | decimal whole fraction exponent suffix =>
    obtain rfl : suffix = c :: cs := hcons
    simp only [isInteger, Bool.and_eq_true, Option.isNone_iff_eq_none] at hinteger
    obtain ⟨⟨rfl, rfl⟩, -⟩ := hinteger
    simp only [isWritable, Bool.and_eq_true] at h
    have hwhole := isDecimal_digitsOf h.1.1.1
    have hwritable : (decimal (digitsOf whole) none none (c :: cs)).isWritable := by
      simp only [isWritable, Bool.and_eq_true]
      exact ⟨⟨⟨hwhole, rfl⟩, rfl⟩, h.2⟩
    have hdigits : ∀ d ∈ digitsOf whole, d.isDigit := fun d hd => by
      rw [← Text.isDigitOf_ten]
      exact isDigitOf_of_mem_digitsOf (Bool.and_eq_true_iff.1 h.1.1.1).1 d hd
    have hchars : (plain (decimal whole none none (c :: cs))).chars ++
        NumericLiteral.suffix (decimal whole none none (c :: cs)) =
          (decimal (digitsOf whole) none none (c :: cs)).chars := by
      simp [plain, chars, NumericLiteral.suffix, fractionChars, exponentChars]
    rw [hchars, unsignedValue?_of_hasRadix (hasRadix_decimal hwritable)]
    exact decimalValue?_eq_none hdigits (by rw [← Text.isDigitOf_ten, hdigit]) hmantissa hpoint

/-- **An integer literal as it is spelled denotes its number, or nothing.** -/
theorem unsignedSeparated?_chars :
    unsignedSeparated? literal.chars = if literal.isShared then some literal.value else none := by
  have hfilter : literal.chars.filter (· != '_') = literal.plain.chars ++ literal.suffix :=
    digitsOf_chars h
  rw [unsignedSeparated?, hfilter, isShared]
  rcases suffix_of_isInteger h hinteger with hsuffix | hsuffix
  · rw [isSeparated_chars h hinteger hsuffix, hsuffix, List.append_nil, unsignedValue?_plain h]
    cases isSeparated literal.base false literal.digits <;> cases literal.hasSpareZero <;> rfl
  · have hne : literal.suffix.isEmpty = false := by
      cases hempty : literal.suffix with
      | nil => exact absurd (hempty ▸ hsuffix) (by decide)
      | cons c cs => rfl
    rw [unsignedValue?_suffixed h hinteger hsuffix, hne]
    split <;> rfl

/-- An integer literal is in plain form if it has neither a suffix nor underscores. -/
theorem chars_eq_plain_iff :
    literal.chars = literal.plain.chars ↔ literal.suffix = [] ∧ '_' ∉ literal.digits := by
  have hmem : '_' ∈ literal.bodyChars ↔ '_' ∈ literal.digits := by
    cases literal with
    | radix r digits suffix => cases r <;> simp [bodyChars, NumericLiteral.digits, Radix.letter]
    | decimal whole fraction exponent suffix =>
      simp only [isInteger, Bool.and_eq_true, Option.isNone_iff_eq_none] at hinteger
      simp [bodyChars, NumericLiteral.digits, hinteger.1.1, hinteger.1.2, fractionChars,
        exponentChars]
  rw [← hmem, chars_eq, ← digitsOf_bodyChars h]
  constructor
  · intro heq
    have hlength := congrArg List.length heq
    have hle : (digitsOf literal.bodyChars).length ≤ literal.bodyChars.length :=
      List.length_filter_le _ _
    rw [List.length_append] at hlength
    have hsuffix : literal.suffix = [] := List.length_eq_zero_iff.1 (by omega)
    rw [hsuffix, List.append_nil] at heq
    refine ⟨hsuffix, fun hunderscore => ?_⟩
    rw [heq] at hunderscore
    exact absurd (List.mem_filter.1 hunderscore).2 (by decide)
  · rintro ⟨hsuffix, hnone⟩
    rw [hsuffix, List.append_nil, digitsOf_of_notMem hnone]

end NumericLiteral

/-- **A discriminant denotes its number as it is spelled, or nothing.** -/
theorem separatedValue?_signedText {literal : NumericLiteral} (h : literal.isWritable)
    (hinteger : literal.isInteger) (negative : Bool) :
    separatedValue? (signedText negative literal).toList =
      if literal.isShared then some (if negative then -literal.value else literal.value)
      else none := by
  obtain ⟨d, tail, hchars, hd⟩ := NumericLiteral.exists_chars_cons h
  have hminus : literal.chars.head? ≠ some '-' := by
    rw [hchars, List.head?_cons]
    rintro ⟨⟩
    cases hd
  have htext : (signedText negative literal).toList =
      (if negative then ['-'] else []) ++ literal.chars := by
    cases negative <;> simp [signedText]
  rw [htext, TypeScript.separatedValue?_signed hminus,
    NumericLiteral.unsignedSeparated?_chars h hinteger]
  cases literal.isShared <;> cases negative <;> rfl

/-- What starts with a quote is no number. -/
theorem separatedValue?_quoted (negative : Bool) (literal : ByteLiteral) :
    separatedValue? ((if negative then "-" else "") ++ String.ofList literal.quoted).toList =
      none := by
  have htext : ((if negative then "-" else "") ++ String.ofList literal.quoted).toList =
      (if negative then ['-'] else []) ++ literal.quoted := by
    cases negative <;> simp
  have hfilter : literal.quoted.filter (· != '_') =
      '\'' :: (literal.body ++ ['\'']).filter (· != '_') := rfl
  have hdecimal (cs : List Char) : unsignedValue? ('\'' :: cs) = none :=
    @decimalValue?_eq_none [] cs (List.forall_mem_nil _) '\'' rfl rfl (by decide)
  have hminus : literal.quoted.head? ≠ some '-' := by
    rw [ByteLiteral.quoted, List.head?_cons]
    decide
  rw [htext, TypeScript.separatedValue?_signed hminus, unsignedSeparated?, hfilter, hdecimal,
    ite_self]
  rfl

/-- The text of an integer is that of the plain literal exactly if it has neither a suffix nor
underscores. -/
theorem signedText_eq_plain_iff {literal : NumericLiteral} (h : literal.isWritable)
    (hinteger : literal.isInteger) (negative : Bool) :
    signedText negative literal = signedText negative literal.plain ↔
      literal.suffix = [] ∧ '_' ∉ literal.digits := by
  rw [← NumericLiteral.chars_eq_plain_iff h hinteger, signedText, signedText,
    String.append_right_inj, String.ofList_inj]

end Rust

namespace Translate

open Rust (CutInto Discriminant NumericLiteral Piece Preamble UnitVariant Visibility signedText
  unitEnum unitEnumItem)
open TypeScript (separatedValue?)

/-- The line of a member of an enumeration that is given a text. -/
def memberLine (docs : List String) (name value : String) : String :=
  TypeScript.renderComment (TypeScript.indentation 1) docs ++ TypeScript.indent 1 ++ name ++
    " = " ++ value ++ ",\n"

/-- **The members of an enumeration have the discriminants of the variants as they are spelled.** In
an enum that enumerations are for, behind its preamble and its visibility, each serialized variant
becomes a member. If its discriminant is an integer literal, the member is given the literal, which
denotes this integer if and only if it is shared, and is what a constant would be given if and only
if it has neither a suffix nor underscores. If its discriminant is the literal of a byte, the member
is given what is left of it, which is no number. -/
theorem translate_discriminants (settings : Settings) {p : Preamble} (hp : p.isWritable)
    {v : Visibility} (hv : v.isWritable) {front : String}
    (hfront : CutInto front.toList (p.pieces ++ v.pieces)) {name : String}
    (hname : Piece.isName name) {params : String} {generics : List String}
    (hparams : CutInto params.toList (Rust.genericsPieces generics)) {leading : List UnitVariant}
    {last : Option UnitVariant} (hvariants : ∀ w ∈ leading ++ last.toList, w.IsWritable)
    (hfor : ForEnumeration settings (unitEnumItem p name generics (leading ++ last.toList))
      ((leading ++ last.toList).map UnitVariant.read)) :
    let facts := factsOfItem settings (unitEnumItem p name generics (leading ++ last.toList))
    ∃ items,
      Rust.parse (front ++ unitEnum name params leading last) = .ok items ∧
      (translate (withConstEnums settings true) items).text = marker ++ "\n" ++ ("\n" ++
        TypeScript.renderComment 0 p.docs ++
          ((if settings.ambient then "declare " else "export ") ++ "const enum " ++ name ++
            " \x7b\n" ++ Text.concat (((leading ++ last.toList).filter (isSerialized ·.read)).map
              fun w => (enumerator facts w.read).render) ++ "\x7d\n")) ∧
      (translate (withConstEnums settings true) items).unprocessed = [] ∧
      ∀ w ∈ leading ++ last.toList,
        (∀ negative literal, w.discriminant = some (.number negative literal) →
          (enumerator facts w.read).render =
            memberLine w.preamble.docs w.name (signedText negative literal) ∧
          separatedValue? (signedText negative literal).toList =
            (if literal.isShared then some (if negative then -literal.value else literal.value)
            else none) ∧
          (signedText negative literal = signedText negative literal.plain ↔
            literal.suffix = [] ∧ '_' ∉ literal.digits)) ∧
        ∀ negative literal, w.discriminant = some (.byte negative literal) → ∃ text,
          (enumerator facts w.read).render = memberLine w.preamble.docs w.name text ∧
          text = (if negative then "-" else "") ++ String.ofList literal.quoted ∧
          separatedValue? text.toList = none := by
  intro facts
  have hparse := Rust.parse_unitEnum hp hv hfront hname hparams hvariants
  have hline {w : UnitVariant} {d : Discriminant} (hd : w.discriminant = some d) :
      (enumerator facts w.read).render = memberLine w.preamble.docs w.name d.written := by
    have hvalue : (enumerator facts w.read).value = d.written := by
      rw [enumerator, UnitVariant.read, hd]
      rfl
    rw [TypeScript.Enumerator.render, hvalue]
    rfl
  refine ⟨_, hparse, ?_, ?_, fun w hw =>
    ⟨fun negative literal hd => ?_, fun negative literal hd => ?_⟩⟩
  · have hfilter : ((leading ++ last.toList).map UnitVariant.read).filter isSerialized =
        ((leading ++ last.toList).filter (isSerialized ·.read)).map UnitVariant.read :=
      List.filter_map ..
    rw [text_translate, List.map_singleton, (twoForms_ofItem settings hfor).text', hfilter,
      List.map_map, List.map_map, Text.concat_cons, Text.concat_nil, String.append_empty]
    rfl
  · rw [unprocessed_translate, List.flatMap_singleton, ofItem_forEnumeration settings hfor]
    rfl
  · obtain ⟨hwritable, hinteger⟩ := (hvariants w hw).discriminant _ hd
    rw [hline hd, Discriminant.written_number]
    exact ⟨rfl, Rust.separatedValue?_signedText hwritable hinteger negative,
      Rust.signedText_eq_plain_iff hwritable hinteger negative⟩
  · rw [hline hd, Discriminant.written_byte]
    exact ⟨_, rfl, rfl, Rust.separatedValue?_quoted negative literal⟩

/-- A variant on a line of its own, without documentation and attributes. -/
def plainVariant (name : String) (d : Discriminant) : UnitVariant :=
  ⟨"\n  ", ⟨[], []⟩, name, some d⟩

/-- The literal `1u8`. -/
def typedLiteral : NumericLiteral := .decimal ['1'] none none "u8".toList

/-- The literal `0x1_0`. -/
def spacedLiteral : NumericLiteral := .radix .hexadecimal "1_0".toList []

/-- Three variants with a discriminant each. -/
def spelledVariants : List UnitVariant :=
  [plainVariant "A" (.number false typedLiteral), plainVariant "B" (.number true spacedLiteral),
    plainVariant "C" (.byte false (.plain 'c'))]

/-- A variant with a discriminant can be written. -/
theorem isWritable_plainVariant {name : String} (hname : Piece.isName name) {d : Discriminant}
    (hd : d.IsWritable) : (plainVariant name d).IsWritable :=
  ⟨CutInto.layout (List.all_eq_true.1 (by decide : "\n  ".toList.all Rust.Lexeme.isLayout)), rfl,
    hname, fun _ hd' => Option.some.inj hd' ▸ hd⟩

/-- So can these variants. -/
theorem isWritable_spelledVariants : ∀ w ∈ spelledVariants, w.IsWritable := by
  have hbyte : (Rust.ByteLiteral.plain 'c').isWritable := by decide
  exact List.forall_mem_cons.2 ⟨isWritable_plainVariant (by decide) ⟨by decide, by decide⟩,
    List.forall_mem_cons.2 ⟨isWritable_plainVariant (by decide) ⟨by decide, by decide⟩,
      List.forall_mem_singleton.2 (isWritable_plainVariant (by decide) hbyte)⟩⟩

/-- Of three discriminants one is written as a number: neither `1u8` nor `b'c'`, but `-0x1_0`. -/
theorem translate_discriminants_spelledVariants :
    CutInto exportFront.toList (exportPreamble.pieces ++ Visibility.everywhere.pieces) ∧
      ForEnumeration .default (unitEnumItem exportPreamble "Level" [] spelledVariants)
        (spelledVariants.map UnitVariant.read) ∧
      (∃ items, Rust.parse (exportFront ++ unitEnum "Level" "" spelledVariants none) = .ok items ∧
        (translate (withConstEnums .default true) items).text = marker ++
          "\n\nexport const enum Level \x7b\n  A = 1u8,\n  B = -0x1_0,\n  C = 'c',\n\x7d\n") ∧
      separatedValue? "1u8".toList = none ∧ separatedValue? "-0x1_0".toList = some (-16) ∧
      separatedValue? "'c'".toList = none := by
  have hfor : ForEnumeration .default (unitEnumItem exportPreamble "Level" [] spelledVariants)
      (spelledVariants.map UnitVariant.read) :=
    ⟨by decide, rfl, by decide, by decide, by decide, by decide⟩
  have hparams : CutInto "".toList (Rust.genericsPieces []) := .nil
  have hwritable : ∀ w ∈ spelledVariants ++ (none : Option UnitVariant).toList, w.IsWritable :=
    isWritable_spelledVariants
  obtain ⟨items, hparse, htext, -, hmembers⟩ := translate_discriminants .default (by decide)
    (by decide) cutInto_exportFront (by decide) hparams hwritable hfor
  obtain ⟨⟨htyped, -⟩, ⟨hspaced, -⟩, -, hbyte⟩ : _ ∧ _ ∧ _ :=
    ⟨hmembers _ List.mem_cons_self, hmembers _ (List.mem_cons_of_mem _ List.mem_cons_self),
      hmembers _ (List.mem_cons_of_mem _ (List.mem_cons_of_mem _ List.mem_cons_self))⟩
  have hvalue : spacedLiteral.value = 16 :=
    congrArg Nat.cast (by decide : Text.ofDigits 16 (Rust.digitsOf "1_0".toList) = 16)
  refine ⟨cutInto_exportFront, hfor, ⟨items, hparse, ?_⟩, (htyped false typedLiteral rfl).2.1, ?_,
    ?_⟩
  · rw [htext]
    decide
  · rw [← hvalue]
    exact (hspaced true spacedLiteral rfl).2.1
  · obtain ⟨text, -, rfl, hnone⟩ := hbyte false (.plain 'c') rfl
    exact hnone

end Translate
end Ferrotype

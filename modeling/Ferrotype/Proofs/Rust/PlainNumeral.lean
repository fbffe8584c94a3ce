/-
# Literals in plain form

The plain form of a numeric literal has neither its suffix nor its underscores, and nothing else is
gone (`plainChars_chars`): no digit of a literal is taken for the start of a suffix, and no suffix
ends like another one.
-/

import Ferrotype.Proofs.Rust.NumericLiteral

namespace Ferrotype
namespace Rust

open Lexeme (isNumberDigit isRadix)
open Numeral (cutNewline dropPoint dropUnderscores floatSuffixes hasRadix integerSuffixes
  plainChars stripSuffix stripType)
open NumericLiteral (exponentChars fractionChars)

/-! ## Literals without underscores -/

/-- Underscores are dropped part by part. -/
theorem digitsOf_append (cs ds : List Char) : digitsOf (cs ++ ds) = digitsOf cs ++ digitsOf ds :=
  List.filter_append ..

/-- Without underscores nothing is dropped. -/
theorem digitsOf_of_notMem {cs : List Char} (h : '_' ∉ cs) : digitsOf cs = cs :=
  List.filter_eq_self.2 fun _ hc => bne_iff_ne.2 fun heq => h (heq ▸ hc)

/-- Underscores at the end are dropped with the others. -/
theorem digitsOf_dropUnderscores (cs : List Char) :
    digitsOf (dropUnderscores cs) = digitsOf cs := by
  have hsplit := List.takeWhile_append_dropWhile (p := (· == '_')) (l := cs.reverse)
  have hnone : digitsOf (cs.reverse.takeWhile (· == '_')).reverse = [] := by
    rw [digitsOf, List.filter_eq_nil_iff]
    intro c hc
    have hunderscore := List.mem_takeWhile_imp (List.mem_reverse.1 hc)
    simpa using hunderscore
  calc digitsOf (dropUnderscores cs)
      = digitsOf (cs.reverse.dropWhile (· == '_')).reverse ++
          digitsOf (cs.reverse.takeWhile (· == '_')).reverse := by
        rw [hnone, List.append_nil, dropUnderscores]
    _ = digitsOf cs := by
      rw [← digitsOf_append, ← List.reverse_append, hsplit, List.reverse_reverse]

/-- Among digits and underscores, what is no underscore is a digit. -/
theorem isDigitOf_of_mem_digitsOf {base : Nat} {cs : List Char} (h : isSpaced base cs) :
    ∀ c ∈ digitsOf cs, Text.isDigitOf base c := by
  intro c hc
  obtain ⟨hmem, hne⟩ := List.mem_filter.1 hc
  have hdigit := List.all_eq_true.1 h c hmem
  rw [Bool.or_eq_true, beq_iff_eq] at hdigit
  exact hdigit.resolve_left (bne_iff_ne.1 hne)

/-- What is left are digits. -/
theorem isSpaced_digitsOf {base : Nat} {cs : List Char} (h : isSpaced base cs) :
    isSpaced base (digitsOf cs) :=
  List.all_eq_true.2 fun c hc => Bool.or_eq_true_iff.2 (.inr (isDigitOf_of_mem_digitsOf h c hc))

/-- A digit is left if there is one. -/
theorem digitsOf_ne_nil {base : Nat} {cs : List Char} (h : cs.any (Text.isDigitOf base)) :
    digitsOf cs ≠ [] := by
  obtain ⟨c, hc, hdigit⟩ := List.any_eq_true.1 h
  refine List.ne_nil_of_mem (List.mem_filter.2 ⟨hc, bne_iff_ne.2 ?_⟩)
  exact Text.Hexadecimal.ne_of_isDigit (Text.isDigit_of_isDigitOf hdigit) rfl

/-- A decimal number stays one. -/
theorem isDecimal_digitsOf {cs : List Char} (h : isDecimal cs) : isDecimal (digitsOf cs) := by
  rw [isDecimal, Bool.and_eq_true] at h
  rw [isDecimal, isSpaced_digitsOf h.1, Bool.true_and]
  cases cs with
  | nil => exact h.2
  | cons c cs =>
    have hdigit : Text.isDigitOf 10 c := h.2
    have hne : c ≠ '_' :=
      Text.Hexadecimal.ne_of_isDigit (Text.isDigit_of_isDigitOf hdigit) rfl
    have hkept : (c != '_') = true := bne_iff_ne.2 hne
    rw [digitsOf, List.filter_cons, if_pos hkept]
    exact hdigit

namespace Exponent

/-- An exponent without its underscores. -/
def plain (e : Exponent) : Exponent := { e with digits := digitsOf e.digits }

/-- Without its underscores an exponent is that of the plain literal. -/
theorem digitsOf_chars {e : Exponent} (h : e.isWritable) : digitsOf e.chars = e.plain.chars := by
  have hletter : '_' ∉ [e.letter] := by
    rcases letter_eq h with h | h <;> rw [h] <;> decide
  have hsign : '_' ∉ e.sign := by
    obtain hsign | ⟨sign, hsign, hmark⟩ := sign_eq h
    · rw [hsign]
      exact List.not_mem_nil
    · rw [hsign]
      rcases hmark with rfl | rfl <;> decide
  have hchars : e.chars = [e.letter] ++ (e.sign ++ e.digits) := rfl
  rw [hchars, digitsOf_append, digitsOf_append, digitsOf_of_notMem hletter,
    digitsOf_of_notMem hsign]
  rfl

/-- A plain literal is one that can be written. -/
theorem isWritable_plain {e : Exponent} (h : e.isWritable) : e.plain.isWritable := by
  simp only [isWritable, Bool.and_eq_true] at h
  simp only [plain, isWritable, Bool.and_eq_true]
  refine ⟨⟨h.1.1, isSpaced_digitsOf h.1.2⟩, ?_⟩
  obtain ⟨c, hc⟩ := List.exists_mem_of_ne_nil _ (digitsOf_ne_nil h.2)
  exact List.any_eq_true.2 ⟨c, hc, isDigitOf_of_mem_digitsOf h.1.2 c hc⟩

end Exponent

namespace NumericLiteral

/-- A literal without its underscores and its suffix. -/
def plain : NumericLiteral → NumericLiteral
  | radix r digits _ => radix r (digitsOf digits) []
  | decimal whole fraction exponent _ =>
    decimal (digitsOf whole) (fraction.map digitsOf) (exponent.map Exponent.plain) []

/-- The characters of a literal in front of its suffix. -/
def bodyChars : NumericLiteral → List Char
  | radix r digits _ => '0' :: r.letter :: digits
  | decimal whole fraction exponent _ => whole ++ (fractionChars fraction ++ exponentChars exponent)

/-- A literal is what stands in front of its suffix, and the suffix. -/
theorem chars_eq (literal : NumericLiteral) :
    literal.chars = literal.bodyChars ++ literal.suffix := by
  cases literal <;> simp [chars, bodyChars, suffix]

/-- The underscores of a fraction are those of its digits. -/
theorem digitsOf_fractionChars (fraction : Option (List Char)) :
    digitsOf (fractionChars fraction) = fractionChars (fraction.map digitsOf) := by
  cases fraction <;> rfl

/-- The underscores of an exponent are those of its digits. -/
theorem digitsOf_exponentChars {exponent : Option Exponent}
    (h : exponent.all Exponent.isWritable) :
    digitsOf (exponentChars exponent) = exponentChars (exponent.map Exponent.plain) := by
  cases exponent with
  | none => rfl
  | some e => exact Exponent.digitsOf_chars h

/-- What stands in front of the suffix is, without underscores, the plain literal. -/
theorem digitsOf_bodyChars {literal : NumericLiteral} (h : literal.isWritable) :
    digitsOf literal.bodyChars = literal.plain.chars := by
  cases literal with
  | radix r digits suffix =>
    have hprefix : '_' ∉ ['0', r.letter] := by cases r <;> decide
    have hbody : (radix r digits suffix).bodyChars = ['0', r.letter] ++ digits := rfl
    rw [hbody, digitsOf_append, digitsOf_of_notMem hprefix, plain, chars, List.append_nil]
    rfl
  | decimal whole fraction exponent suffix =>
    simp only [isWritable, Bool.and_eq_true] at h
    rw [bodyChars, digitsOf_append, digitsOf_append, digitsOf_fractionChars,
      digitsOf_exponentChars h.1.1.2, plain, chars, List.append_nil]

/-! ## Suffixes -/

/-- The characters in front of the suffix of a decimal literal. -/
theorem mem_bodyChars_decimal {whole suffix : List Char} {fraction : Option (List Char)}
    {exponent : Option Exponent} (h : (decimal whole fraction exponent suffix).isWritable) :
    ∀ c ∈ (decimal whole fraction exponent suffix).bodyChars,
      isNumberDigit c ∨ c ∈ ['.', 'e', 'E', '+', '-'] := by
  have hdigits {cs : List Char} (hcs : isSpaced 10 cs) :
      ∀ c ∈ cs, isNumberDigit c ∨ c ∈ ['.', 'e', 'E', '+', '-'] :=
    fun c hc => .inl (isNumberDigit_of_isSpaced hcs c hc)
  have hfraction := isSpaced_fraction h
  simp only [isWritable, Bool.and_eq_true] at h
  obtain ⟨⟨⟨hwhole, hexponent⟩, -⟩, -⟩ := h
  rw [bodyChars, List.forall_mem_append, List.forall_mem_append]
  refine ⟨hdigits (Bool.and_eq_true_iff.1 hwhole).1, ?_, ?_⟩
  · cases fraction with
    | none => exact List.forall_mem_nil _
    | some ds => exact List.forall_mem_cons.2 ⟨.inr (by simp), hdigits (hfraction ds rfl)⟩
  · cases exponent with
    | none => exact List.forall_mem_nil _
    | some e =>
      refine List.forall_mem_cons.2 ⟨.inr ?_, List.forall_mem_append.2 ⟨?_, ?_⟩⟩
      · rcases Exponent.letter_eq hexponent with h | h <;> simp [h]
      · obtain hsign | ⟨sign, hsign, hmark⟩ := Exponent.sign_eq hexponent
        · rw [hsign]
          exact List.forall_mem_nil _
        · rw [hsign, List.forall_mem_singleton]
          rcases hmark with rfl | rfl <;> simp
      · exact hdigits (Exponent.isSpaced_digits hexponent)

end NumericLiteral

/-- What is stripped off a text with a suffix behind it, if no suffix of the table starts in the
text. -/
theorem stripSuffix_append {table : List (List Char)} {body suffix : List Char}
    (hnewline : '\n' ∉ body ++ suffix) (hstarts : ∀ s ∈ table, ∀ c ∈ s.head?, c ∉ body)
    (hends : ∀ s ∈ table, s <:+ suffix → s = suffix) :
    stripSuffix table (body ++ suffix) =
      if suffix ∈ table then dropUnderscores body else body ++ suffix := by
  have hcut : cutNewline (body ++ suffix) = (body ++ suffix, []) :=
    if_neg fun hlast => hnewline (List.mem_of_getLast? hlast)
  have honly : ∀ s ∈ table, s.isSuffixOf (body ++ suffix) = true ↔ s = suffix := by
    intro s hs
    rw [List.isSuffixOf_iff_suffix]
    constructor
    · intro hsuffix
      rcases List.suffix_or_suffix_of_suffix hsuffix (List.suffix_append body suffix) with hle | hle
      · exact hends s hs hle
      · -- A longer one would start in the text.
        obtain ⟨front, rfl⟩ := hle
        obtain ⟨before, hbefore⟩ := hsuffix
        rw [← List.append_assoc, List.append_left_inj] at hbefore
        cases front with
        | nil => rfl
        | cons c front =>
          refine absurd ?_ (hstarts _ hs c rfl)
          rw [← hbefore]
          exact List.mem_append_right _ List.mem_cons_self
    · rintro rfl
      exact List.suffix_append _ _
  rw [stripSuffix, hcut]
  cases hfind : table.find? (·.isSuffixOf (body ++ suffix)) with
  | none =>
    have hnone : suffix ∉ table := fun hmem =>
      List.find?_eq_none.1 hfind suffix hmem ((honly suffix hmem).2 rfl)
    rw [if_neg hnone]
  | some s =>
    have hmem := List.mem_of_find?_eq_some hfind
    have hfound := List.find?_some hfind
    obtain rfl := (honly s hmem).1 hfound
    have htake : (body ++ s).take ((body ++ s).length - s.length) = body := by
      rw [List.length_append, Nat.add_sub_cancel, List.take_left]
    rw [if_pos hmem]
    simp only [htake, List.append_nil]

/-- No suffix of a table ends like another suffix. -/
theorem eq_of_suffix {s suffix : List Char} (hs : s ∈ suffixes) (hsuffix : suffix ∈ [] :: suffixes)
    (h : s <:+ suffix) : s = suffix := by
  have hall : ∀ s ∈ suffixes, ∀ suffix ∈ [] :: suffixes, s.isSuffixOf suffix → s = suffix := by
    decide
  exact hall s hs suffix hsuffix (List.isSuffixOf_iff_suffix.2 h)

/-- The suffix of an integer starts with an `i` or a `u`. -/
theorem head?_of_mem_integerSuffixes {s : List Char} (hs : s ∈ integerSuffixes) {c : Char}
    (hc : c ∈ s.head?) : c = 'i' ∨ c = 'u' := by
  have hall : ∀ s ∈ integerSuffixes, s.head?.all fun c => c == 'i' || c == 'u' := by decide
  simpa using (Option.all_eq_true _ _).1 (hall s hs) c hc

/-- The suffix of a float starts with an `f`. -/
theorem head?_of_mem_floatSuffixes {s : List Char} (hs : s ∈ floatSuffixes) {c : Char}
    (hc : c ∈ s.head?) : c = 'f' := by
  have hall : ∀ s ∈ floatSuffixes, s.head?.all (· == 'f') := by decide
  simpa using (Option.all_eq_true _ _).1 (hall s hs) c hc

section Strip

variable {body suffix : List Char} (hnewline : '\n' ∉ body ++ suffix)
  (hsuffix : suffix ∈ [] :: suffixes)
include hnewline hsuffix

/-- The suffix of an integer is found where it starts, since neither of its letters stands before
it. -/
theorem stripSuffix_integer (hi : 'i' ∉ body) (hu : 'u' ∉ body) :
    stripSuffix integerSuffixes (body ++ suffix) =
      if suffix ∈ integerSuffixes then dropUnderscores body else body ++ suffix := by
  refine stripSuffix_append hnewline (fun s hs c hc => ?_)
    (fun s hs => eq_of_suffix (List.mem_append_left _ hs) hsuffix)
  rcases head?_of_mem_integerSuffixes hs hc with rfl | rfl
  · exact hi
  · exact hu

/-- The suffix of a float is found where it starts, since its letter does not stand before it. -/
theorem stripSuffix_float (hf : 'f' ∉ body) :
    stripSuffix floatSuffixes (body ++ suffix) =
      if suffix ∈ floatSuffixes then dropUnderscores body else body ++ suffix := by
  refine stripSuffix_append hnewline (fun s hs c hc => ?_)
    (fun s hs => eq_of_suffix (List.mem_append_right _ hs) hsuffix)
  obtain rfl := head?_of_mem_floatSuffixes hs hc
  exact hf

end Strip

/-- No character is new. -/
theorem mem_of_mem_dropUnderscores {cs : List Char} {c : Char} (h : c ∈ dropUnderscores cs) :
    c ∈ cs :=
  List.mem_reverse.1 ((List.dropWhile_sublist _).subset (List.mem_reverse.1 h))

namespace NumericLiteral

/-- No character in front of the suffix of a decimal literal is one of these. -/
theorem notMem_bodyChars_decimal {whole suffix : List Char} {fraction : Option (List Char)}
    {exponent : Option Exponent} (h : (decimal whole fraction exponent suffix).isWritable) :
    ∀ c ∈ ['i', 'u', 'f', '\n'], c ∉ (decimal whole fraction exponent suffix).bodyChars := by
  have hnone : ['i', 'u', 'f', '\n'].all fun c =>
      !isNumberDigit c && !List.contains ['.', 'e', 'E', '+', '-'] c := by decide
  intro c hc hmem
  obtain ⟨hdigits, hmarks⟩ := Bool.and_eq_true_iff.1 (List.all_eq_true.1 hnone c hc)
  obtain hdigit | hmark := mem_bodyChars_decimal h c hmem
  · rw [hdigit] at hdigits
    cases hdigits
  · rw [List.contains_iff_mem.2 hmark] at hmarks
    cases hmarks

/-- Behind a radix there is neither a letter of the suffix of an integer nor a line feed. An `f` may
be a digit. -/
theorem notMem_bodyChars_radix {r : Radix} {digits suffix : List Char}
    (h : (radix r digits suffix).isWritable) :
    ∀ c ∈ ['i', 'u', '\n'], c ∉ (radix r digits suffix).bodyChars := by
  have hnone : ∀ c ∈ ['i', 'u', '\n'], Text.Hexadecimal.isDigit c = false ∧ c ≠ '_' ∧ c ≠ '0' ∧
      ∀ r : Radix, c ≠ r.letter := by
    intro c hc
    simp only [List.mem_cons, List.not_mem_nil, or_false] at hc
    rcases hc with rfl | rfl | rfl <;> refine ⟨by decide, by decide, by decide, fun r => ?_⟩ <;>
      cases r <;> decide
  simp only [isWritable, Bool.and_eq_true] at h
  intro c hc hmem
  obtain ⟨hdigit, hunderscore, hzero, hletter⟩ := hnone c hc
  rcases List.mem_cons.1 hmem with heq | hmem
  · exact hzero heq
  rcases List.mem_cons.1 hmem with heq | hmem
  · exact hletter r heq
  · exact notMem_of_isSpaced h.1.1 hdigit hunderscore hmem

/-- No line feed stands in a literal. -/
theorem newline_notMem {literal : NumericLiteral} (hbody : '\n' ∉ literal.bodyChars)
    (hsuffix : literal.suffix ∈ [] :: suffixes) :
    '\n' ∉ literal.bodyChars ++ literal.suffix := by
  have hall : ∀ suffix ∈ [] :: suffixes, '\n' ∉ suffix := by decide
  rw [List.mem_append, not_or]
  exact ⟨hbody, hall _ hsuffix⟩

/-- A decimal literal has no radix. -/
theorem hasRadix_decimal {whole suffix : List Char} {fraction : Option (List Char)}
    {exponent : Option Exponent} (h : (decimal whole fraction exponent suffix).isWritable) :
    hasRadix (decimal whole fraction exponent suffix).chars = false := by
  have hsuffix : suffix ∈ [] :: suffixes := suffix_mem h
  simp only [isWritable, Bool.and_eq_true] at h
  obtain ⟨d, ds, rfl, -, hds⟩ := exists_cons_of_isDecimal h.1.1.1
  have hnone := not_isRadix_append (isNumberDigit_of_isSpaced hds)
    (endsDigits_fraction fraction (endsDigits_scale h.1.1.2 hsuffix))
  rw [chars, List.cons_append]
  unfold hasRadix
  split
  · rename_i heq
    rw [(List.cons.inj heq).2] at hnone
    exact hnone _ rfl
  · rfl

/-- **The plain form of a literal** is the literal without its suffix and its underscores. -/
theorem digitsOf_stripType {literal : NumericLiteral} (h : literal.isWritable) :
    digitsOf (stripType literal.chars) = literal.plain.chars := by
  have hsuffix := suffix_mem h
  have hplain := digitsOf_bodyChars h
  cases literal with
  | radix r digits suffix =>
    have hbody := notMem_bodyChars_radix h
    have hradix : hasRadix (radix r digits suffix).chars = true := by cases r <;> rfl
    have hstrip := stripSuffix_integer (newline_notMem (hbody '\n' (by decide)) hsuffix) hsuffix
      (hbody 'i' (by decide)) (hbody 'u' (by decide))
    rw [stripType, if_pos hradix, chars_eq, hstrip]
    split
    · rw [digitsOf_dropUnderscores, hplain]
    · rename_i hnone
      simp only [isWritable, Bool.and_eq_true, List.contains_iff_mem, List.mem_cons] at h
      obtain rfl : suffix = [] := h.2.resolve_right hnone
      rw [NumericLiteral.suffix, List.append_nil, hplain]
  | decimal whole fraction exponent suffix =>
    have hbody := notMem_bodyChars_decimal h
    have hnewline := hbody '\n' (by decide)
    have hf := hbody 'f' (by decide)
    have hinteger := stripSuffix_integer (newline_notMem hnewline hsuffix) hsuffix
      (hbody 'i' (by decide)) (hbody 'u' (by decide))
    rw [stripType, if_neg (by rw [hasRadix_decimal h]; exact Bool.false_ne_true), chars_eq,
      hinteger]
    split
    · have hdropped : '\n' ∉ dropUnderscores (decimal whole fraction exponent suffix).bodyChars ++
          [] := by
        rw [List.append_nil]
        exact fun hmem => hnewline (mem_of_mem_dropUnderscores hmem)
      have hfloat := stripSuffix_float hdropped List.mem_cons_self
        (fun hmem => hf (mem_of_mem_dropUnderscores hmem))
      rw [if_neg (by decide), List.append_nil] at hfloat
      rw [hfloat, digitsOf_dropUnderscores, hplain]
    · rename_i hnone
      rw [stripSuffix_float (newline_notMem hnewline hsuffix) hsuffix hf]
      split
      · rw [digitsOf_dropUnderscores, hplain]
      · rename_i hnone'
        obtain rfl : suffix = [] := by
          rw [suffixes, List.mem_cons, List.mem_append] at hsuffix
          exact hsuffix.resolve_right (not_or.2 ⟨hnone, hnone'⟩)
        rw [NumericLiteral.suffix, List.append_nil, hplain]

/-- The plain form of a literal is one that can be written. -/
theorem isWritable_plain {literal : NumericLiteral} (h : literal.isWritable) :
    literal.plain.isWritable := by
  cases literal with
  | radix r digits suffix =>
    simp only [isWritable, Bool.and_eq_true] at h
    simp only [plain, isWritable, Bool.and_eq_true]
    refine ⟨⟨isSpaced_digitsOf h.1.1, ?_⟩, rfl⟩
    obtain ⟨c, hc⟩ := List.exists_mem_of_ne_nil _ (digitsOf_ne_nil h.1.2)
    exact List.any_eq_true.2 ⟨c, hc, isDigitOf_of_mem_digitsOf h.1.1 c hc⟩
  | decimal whole fraction exponent suffix =>
    simp only [isWritable, Bool.and_eq_true] at h
    obtain ⟨⟨⟨hwhole, hexponent⟩, hfraction⟩, -⟩ := h
    simp only [plain, isWritable, Bool.and_eq_true]
    refine ⟨⟨⟨isDecimal_digitsOf hwhole, ?_⟩, ?_⟩, rfl⟩
    · cases exponent with
      | none => rfl
      | some e => exact Exponent.isWritable_plain hexponent
    · cases fraction with
      | none => rfl
      | some ds =>
        rw [Option.all_some, Bool.or_eq_true] at hfraction
        rw [Option.map_some, Option.all_some, Bool.or_eq_true]
        refine hfraction.imp isDecimal_digitsOf fun hempty => ?_
        simp only [Bool.and_eq_true, List.isEmpty_iff, Option.isNone_iff_eq_none] at hempty
        obtain ⟨⟨rfl, rfl⟩, -⟩ := hempty
        rfl

/-- There is no point in an exponent. -/
theorem point_notMem_exponentChars {exponent : Option Exponent}
    (h : exponent.all Exponent.isWritable) : '.' ∉ exponentChars exponent := by
  cases exponent with
  | none => exact List.not_mem_nil
  | some e =>
    have hdigits := notMem_of_isSpaced (Exponent.isSpaced_digits h) (d := '.') rfl (by decide)
    have hletter : '.' ≠ e.letter := by
      rcases Exponent.letter_eq h with h | h <;> rw [h] <;> decide
    have hsign : '.' ∉ e.sign := by
      obtain hsign | ⟨sign, hsign, hmark⟩ := Exponent.sign_eq h
      · rw [hsign]
        exact List.not_mem_nil
      · rw [hsign, List.mem_singleton]
        rcases hmark with rfl | rfl <;> decide
    rw [exponentChars, Option.elim_some, Exponent.chars, List.mem_cons, List.mem_append]
    exact not_or.2 ⟨hletter, not_or.2 ⟨hsign, hdigits⟩⟩

/-- A point with a digit behind it is not the last character. -/
theorem getLast?_chars_ne {whole : List Char} {fraction : Option (List Char)}
    {exponent : Option Exponent} (h : (decimal whole fraction exponent []).isWritable)
    (hpoint : fraction ≠ some []) :
    (decimal whole fraction exponent []).chars.getLast? ≠ some '.' := by
  have hplaces := isDecimal_fraction h hpoint
  simp only [isWritable, Bool.and_eq_true] at h
  obtain ⟨⟨⟨hwhole, hexponent⟩, -⟩, -⟩ := h
  have hlast (front : List Char) {back : List Char} (hne : back ≠ []) (hnone : '.' ∉ back) :
      (front ++ (back ++ exponentChars exponent)).getLast? ≠ some '.' := by
    rw [List.getLast?_append]
    cases hback : (back ++ exponentChars exponent).getLast? with
    | none => exact absurd (List.getLast?_eq_none_iff.1 hback) (by simp [hne])
    | some c =>
      rintro ⟨⟩
      rcases List.mem_append.1 (List.mem_of_getLast? hback) with hmem | hmem
      · exact hnone hmem
      · exact point_notMem_exponentChars hexponent hmem
  have hdigits {cs : List Char} (hcs : isDecimal cs) : cs ≠ [] ∧ '.' ∉ cs := by
    refine ⟨?_, notMem_of_isSpaced (Bool.and_eq_true_iff.1 hcs).1 rfl (by decide)⟩
    rintro rfl
    cases hcs
  rw [chars, List.append_nil]
  cases fraction with
  | none => exact hlast [] (hdigits hwhole).1 (hdigits hwhole).2
  | some ds =>
    have hds := hdigits (hplaces ds rfl)
    have hchars := hlast (whole ++ ['.']) hds.1 hds.2
    rw [List.append_assoc] at hchars
    exact hchars

/-- No point is at the end of a literal that is one token. -/
theorem dropPoint_plain {literal : NumericLiteral} (h : literal.isWritable)
    (hsplit : literal.isSplit = false) : dropPoint literal.plain.chars = literal.plain.chars := by
  refine if_neg ?_
  have hplain := isWritable_plain h
  cases literal with
  | radix r digits suffix =>
    intro hlast
    simp only [isWritable, Bool.and_eq_true] at h
    have hdigits := notMem_of_isSpaced (isSpaced_digitsOf h.1.1) (d := '.') rfl (by decide)
    have hprefix : '.' ∉ ['0', r.letter] := by cases r <;> decide
    have hmem : '.' ∈ ['0', r.letter] ++ (digitsOf digits ++ []) := List.mem_of_getLast? hlast
    rw [List.append_nil, List.mem_append] at hmem
    exact hmem.elim hprefix hdigits
  | decimal whole fraction exponent suffix =>
    refine getLast?_chars_ne hplain fun hsome => ?_
    rw [isSplit, Bool.or_eq_false_iff, beq_eq_false_iff_ne] at hsplit
    obtain ⟨ds, rfl, hnil⟩ := Option.map_eq_some_iff.1 hsome
    have hkept := isDecimal_digitsOf (isDecimal_fraction h hsplit.1 ds rfl)
    rw [hnil] at hkept
    cases hkept

/-- **A literal without its suffix and its underscores** is what a numeral is written as. -/
theorem plainChars_chars {literal : NumericLiteral} (h : literal.isWritable)
    (hsplit : literal.isSplit = false) : plainChars literal.chars = literal.plain.chars := by
  have hplain : plainChars literal.chars = dropPoint (digitsOf (stripType literal.chars)) := rfl
  rw [hplain, digitsOf_stripType h, dropPoint_plain h hsplit]

end NumericLiteral

end Rust
end Ferrotype

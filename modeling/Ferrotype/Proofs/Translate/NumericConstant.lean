/-
# Numeric constants

A numeric constant is written with the literal it was given, without its suffix and its underscores.
`translate_numericConst` says which literals keep their value that way: all but those with a zero
in front of the digits, which is no decimal literal in strict mode, and those that are cut into
several tokens, which are left out.
-/

import Ferrotype.Proofs.Rust.PlainNumeral
import Ferrotype.Proofs.Translate.StringConstant
import Ferrotype.Proofs.TypeScript.Number

namespace Ferrotype

/-! ## Plain literals are numbers -/

namespace Rust

open Lexeme (isRadix)
open NumericLiteral (exponentChars fractionChars)
open TypeScript (base? decimalValue? exponentValue? unsignedValue?)

/-- A character that is no radix has no base. -/
theorem base?_eq_none {c : Char} (h : isRadix c.toLower = false) : base? c = none := by
  unfold base?
  split <;> simp_all [isRadix]

/-- What announces no base is a decimal number. -/
theorem unsignedValue?_of_hasRadix {cs : List Char} (h : Numeral.hasRadix cs = false) :
    unsignedValue? cs = decimalValue? cs := by
  fun_cases unsignedValue? cs with
  | case1 c cs base hbase =>
    rw [base?_eq_none h] at hbase
    cases hbase
  | case2 => rfl
  | case3 => rfl

/-- Digits without underscores are read as the number they write. -/
theorem natural?_digitsOf {base : Nat} {cs : List Char} (h : isSpaced base cs)
    (hany : cs.any (Text.isDigitOf base)) :
    Text.natural? base (digitsOf cs) = some (Text.ofDigits base (digitsOf cs)) :=
  Text.natural?_of_digits (digitsOf_ne_nil hany) (isDigitOf_of_mem_digitsOf h)

/-- The exponent of a plain literal is read with its value. -/
theorem exponentValue?_plain {e : Exponent} (h : e.isWritable) :
    exponentValue? e.plain.chars = some e.value := by
  have hspaced := Exponent.isSpaced_digits h
  have hany : e.digits.any (Text.isDigitOf 10) := by
    simp only [Exponent.isWritable, Bool.and_eq_true] at h
    exact h.2
  have hnatural := natural?_digitsOf hspaced hany
  have hchars : e.plain.chars = e.letter :: (e.sign ++ digitsOf e.digits) := rfl
  rw [hchars, Exponent.value]
  obtain hsign | ⟨sign, hsign, rfl | rfl⟩ := Exponent.sign_eq h
  · -- A digit is no sign.
    have hdigits := isDigitOf_of_mem_digitsOf hspaced
    rw [hsign, List.nil_append, if_neg (by decide)]
    unfold exponentValue?
    split
    · rename_i heq
      cases heq
    · rename_i heq
      rw [(List.cons.inj heq).2] at hdigits
      exact absurd (hdigits '-' List.mem_cons_self) (by decide)
    · rename_i heq
      rw [(List.cons.inj heq).2] at hdigits
      exact absurd (hdigits '+' List.mem_cons_self) (by decide)
    · rename_i heq
      rw [← (List.cons.inj heq).2, hnatural]
      rfl
  · rw [hsign, if_neg (by decide), List.singleton_append, exponentValue?, hnatural]
    rfl
  · rw [hsign, if_pos rfl, List.singleton_append, exponentValue?, hnatural]
    rfl

namespace NumericLiteral

/-- A fraction without underscores is one in the target language. -/
theorem isFractional_fractionChars {fraction : Option (List Char)}
    (h : ∀ ds ∈ fraction, isSpaced 10 ds) :
    TypeScript.IsFractional (fractionChars (fraction.map digitsOf)) := by
  cases fraction with
  | none => exact .inl rfl
  | some ds =>
    refine .inr ⟨digitsOf ds, rfl, fun c hc => ?_⟩
    rw [← Text.isDigitOf_ten]
    exact isDigitOf_of_mem_digitsOf (h ds rfl) c hc

/-- An exponent starts with its letter. -/
theorem head?_exponentChars {exponent : Option Exponent} (h : exponent.all Exponent.isWritable) :
    ∀ c ∈ (exponentChars (exponent.map Exponent.plain)).head?, c = 'e' ∨ c = 'E' := by
  cases exponent with
  | none => exact fun c hc => absurd hc (by simp [exponentChars])
  | some e =>
    rintro _ ⟨⟩
    exact Exponent.letter_eq (Exponent.isWritable_plain h)

/-- An exponent is read with its value, and none counts as zero. -/
theorem exponentValue?_exponentChars {exponent : Option Exponent}
    (h : exponent.all Exponent.isWritable) :
    exponentValue? (exponentChars (exponent.map Exponent.plain)) =
      some (exponent.elim 0 Exponent.value) := by
  cases exponent with
  | none => rfl
  | some e => exact exponentValue?_plain h

/-- **The plain form of a literal is read as its value**, unless it has a spare zero. -/
theorem unsignedValue?_plain {literal : NumericLiteral} (h : literal.isWritable) :
    unsignedValue? literal.plain.chars =
      if literal.hasSpareZero then none else some literal.value := by
  cases literal with
  | radix r digits suffix =>
    simp only [isWritable, Bool.and_eq_true] at h
    have hbase : base? r.letter = some r.base := by cases r <;> decide
    rw [plain, chars, List.append_nil, unsignedValue?, hbase]
    simp only [natural?_digitsOf h.1.1 h.1.2]
    rfl
  | decimal whole fraction exponent suffix =>
    have hradix := hasRadix_decimal (isWritable_plain h)
    have hfraction := isSpaced_fraction h
    simp only [isWritable, Bool.and_eq_true] at h
    obtain ⟨⟨⟨hwhole, hexponent⟩, -⟩, -⟩ := h
    rw [isDecimal, Bool.and_eq_true] at hwhole
    have hdigits : ∀ c ∈ digitsOf whole, c.isDigit := fun c hc => by
      rw [← Text.isDigitOf_ten]
      exact isDigitOf_of_mem_digitsOf hwhole.1 c hc
    have hplaces : (fractionChars (fraction.map digitsOf)).drop 1 =
        digitsOf (fraction.getD []) := by cases fraction <;> rfl
    have hnatural : Text.natural? 10 (digitsOf whole ++ digitsOf (fraction.getD [])) =
        some (Text.ofDigits 10 (digitsOf whole ++ digitsOf (fraction.getD []))) := by
      rw [← digitsOf_append]
      refine natural?_digitsOf ?_ ?_
      · rw [isSpaced, List.all_append, Bool.and_eq_true]
        refine ⟨hwhole.1, ?_⟩
        cases fraction with
        | none => rfl
        | some ds => exact hfraction ds rfl
      · rw [List.any_append, Bool.or_eq_true]
        refine .inl ?_
        cases whole with
        | nil => exact absurd hwhole.2 Bool.false_ne_true
        | cons c cs => exact List.any_eq_true.2 ⟨c, List.mem_cons_self, hwhole.2⟩
    have hspare : (decimal whole fraction exponent suffix).hasSpareZero ↔
        (digitsOf whole).head? = some '0' ∧ 1 < (digitsOf whole).length := by
      rw [hasSpareZero, Bool.and_eq_true, beq_iff_eq, decide_eq_true_iff]
    rw [plain, unsignedValue?_of_hasRadix hradix, chars, List.append_nil,
      TypeScript.decimalValue?_append hdigits (isFractional_fractionChars hfraction)
        (head?_exponentChars hexponent), hplaces, hnatural, exponentValue?_exponentChars hexponent,
      Option.bind_some, Option.map_some, Text.ofDigits_append_scaled]
    simp only [hspare]
    rfl

/-- The literal with its sign. -/
theorem numberValue?_plain {literal : NumericLiteral} (h : literal.isWritable) (negative : Bool) :
    TypeScript.numberValue? ((if negative then ['-'] else []) ++ literal.plain.chars) =
      if literal.hasSpareZero then none
      else some (if negative then -literal.value else literal.value) := by
  have hunsigned := unsignedValue?_plain h
  cases negative with
  | true =>
    rw [if_pos rfl, List.singleton_append, TypeScript.numberValue?, hunsigned]
    split <;> rfl
  | false =>
    obtain ⟨d, tail, hchars, hd⟩ := exists_chars_cons (isWritable_plain h)
    have hminus : d ≠ '-' := by
      rintro rfl
      cases hd
    rw [hchars] at hunsigned ⊢
    rw [if_neg Bool.false_ne_true, List.nil_append, if_neg Bool.false_ne_true, ← hunsigned]
    unfold TypeScript.numberValue?
    split
    · rename_i heq
      exact absurd (List.cons.inj heq).1 hminus
    · rfl

end NumericLiteral

/-! ## Numeric constants in a source -/

open Piece (mark)

/-- What is no expression as a whole is kept as text, up to the semicolon. -/
theorem reads_rawValue (eof : Token) {ps left rest : List Piece} {e : Expr}
    (h : Reads (parseExpr eof) (ps ++ mark .semicolon :: rest) e left)
    (hleft : Piece.headKind left ≠ .semicolon) (hps : ∀ p ∈ ps, p.isInner) :
    Reads (constValue eof) (mark .eq :: (ps ++ mark .semicolon :: rest))
      (some (.raw (joinTokens (ps.map (·.text))))) (mark .semicolon :: rest) := by
  intro ts hts
  obtain ⟨t, us, rfl, hkind, hus⟩ := exists_mark_of_piecesOf hts
  obtain ⟨r, hr, -, hrest⟩ := h us hus
  have hnone : headKind r.rest ≠ .semicolon := by rwa [headKind_of_piecesOf hrest]
  have hinner : ∀ p ∈ ps, (p.kind == .semicolon) = false ∧ p.kind.opens = false ∧
      p.kind.closes = false := fun p hp => by
    simpa [Piece.isInner, and_assoc] using hps p hp
  obtain ⟨htexts, hend⟩ := @rawSpan_of_piecesOf (· == .semicolon) _ _ _ hus hinner (.inl rfl)
  rw [constValue, if_pos hkind, initializer, hr]
  simp only [bind, Except.bind, if_neg hnone]
  refine ⟨_, rfl, ?_, hend⟩
  rw [Parsed.value_later, Parsed.value_map, textOf, htexts]

/-- The text of tokens starts with the first of them. -/
theorem exists_joinTokens (part : String) (parts : List String) :
    ∃ more, joinTokens (part :: parts) = part ++ more := by
  have hfold (text : String) : ∃ more, parts.foldl appendToken text = text ++ more := by
    induction parts generalizing text with
    | nil => exact ⟨"", (String.append_empty).symm⟩
    | cons next parts ih =>
      obtain ⟨gap, hgap⟩ : ∃ gap, appendToken text next = text ++ gap := by
        rw [appendToken]
        split
        · exact ⟨" " ++ next, String.append_assoc ..⟩
        · exact ⟨next, rfl⟩
      obtain ⟨more, hmore⟩ := ih (appendToken text next)
      refine ⟨gap ++ more, ?_⟩
      rw [List.foldl_cons, hmore, hgap, String.append_assoc]
  obtain ⟨more, hmore⟩ := hfold part
  refine ⟨more, ?_⟩
  have hfirst : appendToken "" part = part := by
    rw [appendToken, if_neg (fun h => h.1 rfl), String.empty_append]
  rw [joinTokens, List.foldl_cons, hfirst, hmore]

end Rust

namespace Translate

open Rust (CutInto Expr NumericLiteral Piece PlainExpr PlainType Preamble Visibility signedText
  typedConst)
open TypeScript (numberValue?)

/-- What starts with a digit or a sign is no path of the absent value. -/
theorem value?_raw {first : String} {c : Char} {cs : List Char} (hfirst : first.toList = c :: cs)
    (hc : c.isDigit ∨ c = '-') (parts : List String) :
    value? (.raw (Rust.joinTokens (first :: parts))) = none := by
  obtain ⟨more, hmore⟩ := Rust.exists_joinTokens first parts
  rw [value?, if_neg]
  intro hmem
  have hnone : ∀ path ∈ nonePaths, path.toList.head?.all fun c => !c.isDigit && c != '-' := by
    decide
  have hhead := (Option.all_eq_true _ _).1 (hnone _ (List.contains_iff_mem.1 hmem)) c
    (by simp [hmore, hfirst])
  obtain ⟨hdigit, hminus⟩ := Bool.and_eq_true_iff.1 hhead
  rcases hc with hc | rfl
  · rw [hc] at hdigit
    cases hdigit
  · cases hminus

/-- An exported constant without a value is left out, if the output is not ambient. -/
theorem ofItem_const_leftOut {settings : Settings} (hambient : settings.ambient = false)
    {p : Preamble} (hexported : Serde.hasAttribute settings.marker p.attributes) (name : String)
    (t : Rust.TypeExpr) {e : Expr} (he : value? e = none) :
    ofItem settings ⟨name, [], p, .const t (some e)⟩ = ofLeftOut name t (some e) := by
  have hconst : const? settings name t (some e) = none := by
    rw [const?, hambient, if_neg Bool.false_ne_true, Option.bind_some, he]
    rfl
  have hfacts : (factsOfItem settings ⟨name, [], p, .const t (some e)⟩).exported = true := hexported
  rw [ofItem]
  simp only [hfacts, if_true]
  rw [exported]
  simp only [hconst]

section Constants

variable {settings : Settings} (hambient : settings.ambient = false) {p : Preamble}
  (hp : p.isWritable) (hexported : Serde.hasAttribute settings.marker p.attributes) {v : Visibility}
  (hv : v.isWritable) {front : String} (hfront : CutInto front.toList (p.pieces ++ v.pieces))
  {name : String} (hname : Piece.isName name) {t : PlainType} (ht : t.isWritable) {type : String}
  (htype : CutInto (type.toList ++ [' ']) t.pieces) (negative : Bool) {literal : NumericLiteral}
  (hliteral : literal.isWritable)
include hambient hp hexported hv hfront hname ht htype hliteral

/-- A literal that is one token is written in its plain form. -/
theorem translate_wholeLiteral (hsplit : literal.isSplit = false) :
    ∃ items,
      Rust.parse (front ++ typedConst name type (signedText negative literal)) = .ok items ∧
      (translate settings items).text = marker ++ "\n" ++ ("\n" ++
        TypeScript.renderComment 0 p.docs ++ ("export const " ++ name ++ ": " ++
          (Translate.type t.sorted).render ++ " = " ++
            ((if negative then "-" else "") ++ String.ofList literal.plain.chars) ++ ";\n")) ∧
      (translate settings items).unprocessed = [] ∧
      (translate settings items).findings = unmapped name (Translate.type t.sorted).foreigns := by
  obtain ⟨d, tail, hchars, hd⟩ := NumericLiteral.exists_chars_cons hliteral
  have hvalue : CutInto ((signedText negative literal).toList ++ [';'])
      ((PlainExpr.number negative (String.ofList literal.chars)).pieces ++
        [Piece.mark .semicolon]) := by
    have hcut := Rust.cutInto_signed negative hd ⟨tail, hchars⟩
      (NumericLiteral.cutInto_chars hliteral hsplit (c := ';') (by decide))
    rwa [PlainExpr.pieces, List.append_assoc]
  have hsource : CutInto (front ++ typedConst name type (signedText negative literal)).toList
      (p.pieces ++ (v.pieces ++ (Piece.mark .const ::
        Rust.plainConstPieces name t (.number negative (String.ofList literal.chars))))) := by
    rw [String.toList_append, ← List.append_assoc]
    exact hfront.append (Rust.cutInto_typedConst hname htype hvalue)
  have hparse := Rust.parse_plainConst hp hv name ht (by rw [PlainExpr.isWritable]) hsource
  have hplain : Rust.Numeral.plain (String.ofList literal.chars) =
      String.ofList literal.plain.chars := by
    rw [Rust.Numeral.plain, String.toList_ofList,
      NumericLiteral.plainChars_chars hliteral hsplit]
  have hread : value? (PlainExpr.number negative (String.ofList literal.chars)).read =
      some (.number negative (String.ofList literal.plain.chars)) := by
    rw [← hplain]
    cases negative <;> rfl
  have htext := text_plainConst hambient hexported name (t := t) hread
  have hblock := ofItem_plainConst hambient hexported name (t := t) hread
  refine ⟨_, hparse, ?_, ?_, ?_⟩
  · have hrender : (TypeScript.Value.number negative (String.ofList literal.plain.chars)).render =
        (if negative then "-" else "") ++ String.ofList literal.plain.chars := by
      cases negative <;> simp [TypeScript.Value.render]
    rw [text_translate, List.map_singleton, htext, Text.concat_cons, Text.concat_nil,
      String.append_empty, hrender]
  · rw [unprocessed_translate, List.flatMap_singleton, hblock]
    rfl
  · rw [findings_translate, List.flatMap_singleton, hblock]
    rfl

/-- A split literal is left out. -/
theorem translate_splitLiteral (hsplit : literal.isSplit) :
    ∃ items,
      Rust.parse (front ++ typedConst name type (signedText negative literal)) = .ok items ∧
      (translate settings items).text = marker ++ "\n" ∧
      (translate settings items).unprocessed = ["const " ++ name] := by
  obtain ⟨d, ds, q, qs, hd, hfirst, hinner, hcut⟩ :=
    NumericLiteral.isCutBehindNumber_of_isSplit hliteral hsplit
  let number : Piece := ⟨.number, String.ofList (d :: ds)⟩
  let sign : List Piece := if negative then [Piece.mark .minus] else []
  have hvalue : CutInto ((signedText negative literal).toList ++ [';'])
      (sign ++ number :: q :: qs ++ [Piece.mark .semicolon]) := by
    have hsigned := Rust.cutInto_signed negative hd hfirst hcut
    rwa [List.append_assoc]
  have hpieces : ∀ piece ∈ sign ++ number :: q :: qs, piece.isInner := by
    refine List.forall_mem_append.2 ⟨?_, List.forall_mem_cons.2 ⟨rfl, hinner⟩⟩
    cases negative
    · exact List.forall_mem_nil _
    · exact List.forall_mem_singleton.2 rfl
  -- The number is read as an expression, but a token follows that is no semicolon.
  have hread (eof : Rust.Token) : ∃ e, Rust.Reads (Rust.parseExpr eof)
      (sign ++ number :: q :: qs ++ Piece.mark .semicolon :: []) e
        (q :: qs ++ Piece.mark .semicolon :: []) := by
    have hnumber := Rust.Expr.isRead_literal eof
      (show Rust.isLiteral (String.ofList (d :: ds)) .number from rfl)
      (q :: qs ++ Piece.mark .semicolon :: [])
    cases negative with
    | false => exact ⟨_, hnumber⟩
    | true => exact ⟨_, Rust.reads_minus eof hnumber⟩
  have hnext : Piece.headKind (q :: qs ++ Piece.mark .semicolon :: []) ≠ .semicolon := by
    have hq := hinner q List.mem_cons_self
    simp only [Piece.isInner, Bool.and_eq_true, bne_iff_ne] at hq
    exact hq.1.1
  have hsource : CutInto (front ++ typedConst name type (signedText negative literal)).toList
      (p.pieces ++ (v.pieces ++ (Piece.mark .const :: Piece.name name :: Piece.mark .colon ::
        (t.pieces ++ Piece.mark .eq :: (sign ++ number :: q :: qs ++
          [Piece.mark .semicolon]))))) := by
    rw [String.toList_append, ← List.append_assoc]
    exact hfront.append (Rust.cutInto_typedConst hname htype hvalue)
  have hparse := Rust.parse_const hp hv (fun eof => by
    obtain ⟨e, he⟩ := hread eof
    have hraw := Rust.reads_rawValue eof he hnext hpieces
    exact Rust.reads_const eof p name
      ((PlainType.readAsType_of_isWritable eof t ht).2 _
          ⟨Rust.Kind.noConfusion, Rust.Kind.noConfusion⟩)
      hraw) hsource
  have hnone : value? (.raw (Rust.joinTokens
      ((sign ++ number :: q :: qs).map (·.text)))) = none := by
    cases negative with
    | false => exact value?_raw (String.toList_ofList ..) (.inl hd) _
    | true => exact @value?_raw "-" _ _ rfl (.inr rfl) _
  have hleft := ofItem_const_leftOut hambient hexported name t.sorted hnone
  refine ⟨_, hparse, ?_, ?_⟩
  · rw [text_translate, List.map_singleton, hleft, Text.concat_cons, Text.concat_nil]
    rfl
  · rw [unprocessed_translate, List.flatMap_singleton, hleft]
    rfl

/-- **A numeric constant keeps its number** if and only if its literal is not split and has no spare
zero, in an output that is not ambient. Behind its preamble, which marks it for export, and its
visibility, a constant is written with a literal of its number, whatever its type. A literal with a
spare zero is written, but is no number in strict mode, and a constant with a split literal is left
out. -/
theorem translate_numericConst :
    ∃ items,
      Rust.parse (front ++ typedConst name type (signedText negative literal)) = .ok items ∧
      (literal.isSplit = false → ∃ numeral,
        (translate settings items).text = marker ++ "\n" ++ ("\n" ++
          TypeScript.renderComment 0 p.docs ++ ("export const " ++ name ++ ": " ++
            (Translate.type t.sorted).render ++ " = " ++ numeral ++ ";\n")) ∧
        (translate settings items).unprocessed = [] ∧
        (translate settings items).findings = unmapped name (Translate.type t.sorted).foreigns ∧
        (numberValue? numeral.toList = some (if negative then -literal.value else literal.value) ↔
          literal.hasSpareZero = false)) ∧
      (literal.isSplit →
        (translate settings items).text = marker ++ "\n" ∧
        (translate settings items).unprocessed = ["const " ++ name]) := by
  cases hsplit : literal.isSplit with
  | true =>
    obtain ⟨items, hparse, htext, hunprocessed⟩ := translate_splitLiteral hambient hp hexported hv
      hfront hname ht htype negative hliteral hsplit
    exact ⟨items, hparse, fun h => Bool.noConfusion h, fun _ => ⟨htext, hunprocessed⟩⟩
  | false =>
    obtain ⟨items, hparse, htext, hunprocessed, hfindings⟩ := translate_wholeLiteral hambient hp
      hexported hv hfront hname ht htype negative hliteral hsplit
    refine ⟨items, hparse, fun _ => ⟨_, htext, hunprocessed, hfindings, ?_⟩,
      fun h => Bool.noConfusion h⟩
    have hchars : ((if negative then "-" else "") ++ String.ofList literal.plain.chars).toList =
        (if negative then ['-'] else []) ++ literal.plain.chars := by
      cases negative <;> simp
    rw [hchars, NumericLiteral.numberValue?_plain hliteral]
    cases literal.hasSpareZero <;> simp

end Constants

/-- The literal `1_0.5e+3_f64`. -/
def scaledLiteral : NumericLiteral :=
  .decimal "1_0".toList (some "5".toList) (some ⟨'e', ['+'], "3_".toList⟩) "f64".toList

/-- The literal `010`. -/
def paddedLiteral : NumericLiteral := .decimal "010".toList none none []

/-- The literal `1.`. -/
def pointLiteral : NumericLiteral := .decimal ['1'] (some []) none []

/-- The number that the literal denotes. -/
theorem value_scaledLiteral : scaledLiteral.value = 10500 := by
  have hwhole : Text.ofDigits 10 (Rust.digitsOf "1_0".toList) = 10 := by decide
  have hplaces : Text.ofDigits 10 (Rust.digitsOf "5".toList) = 5 := by decide
  have hlength : (Rust.digitsOf "5".toList).length = 1 := by decide
  have hexponent : Rust.Exponent.value ⟨'e', ['+'], "3_".toList⟩ = 3 := by decide
  rw [scaledLiteral, NumericLiteral.value, Option.getD_some, Option.elim_some, hwhole, hplaces,
    hlength, hexponent]
  norm_num

/-- Of three constants of type `f64`, the first is written with its number, the second with a
numeral that is no number in strict mode, and the third is left out. -/
theorem translate_numericConst_literals :
    CutInto exportFront.toList (exportPreamble.pieces ++ Visibility.everywhere.pieces) ∧
      CutInto ("f64".toList ++ [' ']) (PlainType.scalar "f64").pieces ∧
      scaledLiteral.isWritable ∧ paddedLiteral.isWritable ∧ pointLiteral.isWritable ∧
      (∃ items numeral,
        Rust.parse (exportFront ++ typedConst "A" "f64" (signedText true scaledLiteral)) =
          .ok items ∧
        (translate .default items).text = marker ++ "\n" ++ ("\n" ++
          TypeScript.renderComment 0 [] ++
            ("export const " ++ "A" ++ ": " ++ "number" ++ " = " ++ numeral ++ ";\n")) ∧
        numberValue? numeral.toList = some (-10500)) ∧
      (∃ items numeral,
        Rust.parse (exportFront ++ typedConst "B" "f64" (signedText false paddedLiteral)) =
          .ok items ∧
        (translate .default items).text = marker ++ "\n" ++ ("\n" ++
          TypeScript.renderComment 0 [] ++
            ("export const " ++ "B" ++ ": " ++ "number" ++ " = " ++ numeral ++ ";\n")) ∧
        numberValue? numeral.toList ≠ some paddedLiteral.value) ∧
      ∃ items,
        Rust.parse (exportFront ++ typedConst "C" "f64" (signedText false pointLiteral)) =
          .ok items ∧
        (translate .default items).text = marker ++ "\n" ∧
        (translate .default items).unprocessed = ["const C"] := by
  have hexported : Serde.hasAttribute (Settings.default).marker exportPreamble.attributes := by
    decide
  have htype : CutInto ("f64".toList ++ [' ']) (PlainType.scalar "f64").pieces :=
    CutInto.spelling (p := Piece.name "f64") (Piece.legible_name (by decide))
  have hnumber : (type (PlainType.scalar "f64").sorted).render = "number" := by decide
  have hplain : (Settings.default).ambient = false := rfl
  have hpreamble : exportPreamble.isWritable := by decide
  have hvisibility : Visibility.everywhere.isWritable := by decide
  have hname : ∀ name ∈ ["A", "B", "C"], Piece.isName name := by decide
  have hscalar : (PlainType.scalar "f64").isWritable := by decide
  have hwritable : scaledLiteral.isWritable ∧ paddedLiteral.isWritable ∧
      pointLiteral.isWritable := by decide
  refine ⟨cutInto_exportFront, htype, hwritable.1, hwritable.2.1, hwritable.2.2, ?_, ?_, ?_⟩
  · obtain ⟨items, hparse, hwhole, -⟩ := translate_numericConst hplain hpreamble hexported
      hvisibility cutInto_exportFront (hname "A" (by decide)) hscalar htype true hwritable.1
    obtain ⟨numeral, htext, -, -, hvalue⟩ := hwhole (by decide)
    rw [hnumber] at htext
    have hread := hvalue.2 (by decide)
    rw [if_pos rfl, value_scaledLiteral] at hread
    exact ⟨items, numeral, hparse, htext, hread⟩
  · obtain ⟨items, hparse, hwhole, -⟩ := translate_numericConst hplain hpreamble hexported
      hvisibility cutInto_exportFront (hname "B" (by decide)) hscalar htype false hwritable.2.1
    obtain ⟨numeral, htext, -, -, hvalue⟩ := hwhole (by decide)
    rw [hnumber] at htext
    exact ⟨items, numeral, hparse, htext, fun hread => absurd (hvalue.1 hread) (by decide)⟩
  · obtain ⟨items, hparse, -, hsplit⟩ := translate_numericConst hplain hpreamble hexported
      hvisibility cutInto_exportFront (hname "C" (by decide)) hscalar htype false hwritable.2.2
    exact ⟨items, hparse, hsplit (by decide)⟩

end Translate
end Ferrotype

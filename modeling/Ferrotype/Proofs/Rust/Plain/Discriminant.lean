/-
# Enums of unit variants

A unit variant is a name behind its preamble, with a discriminant or without. A discriminant is an
integer literal or the literal of a byte, behind a minus sign or not, or any other tokens that no
comma ends. It is kept as the text of its tokens (`Discriminant.written`): an integer literal as it
is spelled, a byte without the letter in front of its quotes.

`parse_unitEnum` reads such an enum from its source, with a comma behind the last variant or without
one.
-/

import Ferrotype.Proofs.Rust.Canonical.Item
import Ferrotype.Proofs.Rust.NumericLiteral
import Ferrotype.Proofs.Rust.Parse.Unbroken
import Ferrotype.Proofs.Rust.Spelling

namespace Ferrotype
namespace Rust

open Piece (mark)

/-! ## Integer literals -/

namespace NumericLiteral

/-- Whether a literal is that of an integer: no fraction, no exponent and no suffix of a
floating-point type. -/
def isInteger : NumericLiteral → Bool
  | radix .. => true
  | decimal _ fraction exponent suffix =>
    fraction.isNone && exponent.isNone && !Numeral.floatSuffixes.contains suffix

/-- The base of the digits in front of the point. -/
def base : NumericLiteral → Nat
  | radix r .. => r.base
  | decimal .. => 10

/-- The digits in front of the point, with their underscores. -/
def digits : NumericLiteral → List Char
  | radix _ digits _ => digits
  | decimal whole .. => whole

/-- An integer is not cut. -/
theorem isSplit_of_isInteger {literal : NumericLiteral} (h : literal.isInteger) :
    literal.isSplit = false := by
  cases literal with
  | radix => rfl
  | decimal whole fraction exponent suffix =>
    simp only [isInteger, Bool.and_eq_true, Option.isNone_iff_eq_none] at h
    rw [h.1.1, h.1.2]
    rfl

end NumericLiteral

/-! ## Literals of bytes -/

/-- What stands between the quotes of a byte: a character, a letter behind a backslash that stands
for one, or its number in two hexadecimal digits. -/
inductive ByteLiteral
  | plain (c : Char)
  | letter (e : Char)
  | code (high low : Char)
deriving Repr, DecidableEq

namespace ByteLiteral

/-- The characters between the quotes. -/
def body : ByteLiteral → List Char
  | plain c => [c]
  | letter e => ['\\', e]
  | code high low => ['\\', 'x', high, low]

/-- Whether a literal is spelled as the grammar asks for. -/
def isWritable : ByteLiteral → Bool
  | plain c => c.toNat < 128 && c ∉ ['\'', '\\', '\n', '\r', '\t']
  | letter e => e ∈ letterEscapes.map Prod.fst
  | code high low => Text.Hexadecimal.isDigit high && Text.Hexadecimal.isDigit low

/-- The literal without the letter in front of its quotes. -/
def quoted (literal : ByteLiteral) : List Char := '\'' :: (literal.body ++ ['\''])

/-- The characters of a literal. -/
def chars (literal : ByteLiteral) : List Char := 'b' :: literal.quoted

/-- The body of a byte is read to its closing quote. -/
theorem quotedTail_body {literal : ByteLiteral} (h : literal.isWritable) (rest : List Char) :
    Lexeme.quotedTail '\'' (literal.body ++ '\'' :: rest) = ⟨literal.body, ['\''], rest⟩ := by
  have hclosing : Lexeme.quotedTail '\'' ('\'' :: rest) = ⟨[], ['\''], rest⟩ := by
    rw [Lexeme.quotedTail_cons (by decide), if_pos rfl]
  cases literal with
  | plain c =>
    simp only [isWritable, Bool.and_eq_true, decide_eq_true_eq, List.mem_cons, not_or] at h
    rw [body, List.singleton_append, Lexeme.quotedTail_cons h.2.2.1, if_neg h.2.1, hclosing]
    rfl
  | letter e =>
    rw [body, List.cons_append, List.singleton_append, Lexeme.quotedTail, hclosing]
    rfl
  | code high low =>
    rw [isWritable, Bool.and_eq_true] at h
    have hplain : ∀ d ∈ [high, low], d ≠ '\'' ∧ d ≠ '\\' := by
      rw [List.forall_mem_cons, List.forall_mem_singleton]
      exact ⟨⟨Text.Hexadecimal.ne_of_isDigit h.1 rfl, Text.Hexadecimal.ne_of_isDigit h.1 rfl⟩,
        Text.Hexadecimal.ne_of_isDigit h.2 rfl, Text.Hexadecimal.ne_of_isDigit h.2 rfl⟩
    have htail := quotedTail_plain hplain ('\'' :: rest)
    rw [hclosing] at htail
    rw [body, List.cons_append, List.cons_append, Lexeme.quotedTail, htail]
    rfl

/-- **The literal of a byte is one token**, without the letter in front of the quotes. -/
theorem cutInto_chars {literal : ByteLiteral} (h : literal.isWritable) :
    CutInto literal.chars [⟨.char, String.ofList literal.quoted⟩] := by
  refine .of_first? fun rest => ?_
  have hfirst (cs : List Char) : Lexeme.first? ('b' :: '\'' :: cs) =
      some (Lexeme.quotedBehind .char ['b'] '\'' cs) := rfl
  have hchars : literal.chars ++ rest = 'b' :: '\'' :: (literal.body ++ '\'' :: rest) := by
    simp [chars, quoted]
  rw [hchars, hfirst, Lexeme.quotedBehind, quotedTail_body h]
  exact ⟨_, rfl, rfl⟩

end ByteLiteral

/-! ## Discriminants -/

/-- What stands behind the equals sign of a variant. -/
inductive Discriminant
  | number (negative : Bool) (literal : NumericLiteral)
  | byte (negative : Bool) (literal : ByteLiteral)
  /-- Other tokens, by their text and their pieces. -/
  | other (text : String) (pieces : List Piece)

/-- The pieces of a minus sign, if there is one. -/
def signPieces (negative : Bool) : List Piece := if negative then [mark .minus] else []

namespace Discriminant

/-- The text of a discriminant in the source. -/
def text : Discriminant → String
  | number negative literal => signedText negative literal
  | byte negative literal => (if negative then "-" else "") ++ String.ofList literal.chars
  | other text _ => text

/-- The tokens of a discriminant. -/
def pieces : Discriminant → List Piece
  | number negative literal =>
    signPieces negative ++ [⟨.number, String.ofList literal.chars⟩]
  | byte negative literal => signPieces negative ++ [⟨.char, String.ofList literal.quoted⟩]
  | other _ pieces => pieces

/-- The text that a discriminant is kept as. -/
def written (d : Discriminant) : String := joinTokens (d.pieces.map (·.text))

/-- Whether a discriminant is made up of what a source can hold. -/
def IsWritable : Discriminant → Prop
  | number _ literal => literal.isWritable ∧ literal.isInteger
  | byte _ literal => literal.isWritable
  | other text pieces => CutInto text.toList pieces ∧
    ∀ ts, piecesOf ts = pieces → Unbroken endsDiscriminant ts

/-- A sign is written next to what it stands in front of. -/
theorem joinTokens_signed (negative : Bool) (p : Piece) :
    joinTokens ((signPieces negative ++ [p]).map (·.text)) =
      (if negative then "-" else "") ++ p.text := by
  cases negative <;> simp [signPieces, joinTokens, appendToken, mark, Piece.markText]

/-- **An integer literal is kept as it is spelled.** -/
theorem written_number (negative : Bool) (literal : NumericLiteral) :
    (number negative literal).written = signedText negative literal :=
  joinTokens_signed negative _

/-- A byte is written with its quotes, and without the letter in front. -/
theorem written_byte (negative : Bool) (literal : ByteLiteral) :
    (byte negative literal).written =
      (if negative then "-" else "") ++ String.ofList literal.quoted :=
  joinTokens_signed negative _

/-- A discriminant in front of what ends it is cut into its pieces. -/
theorem cutInto_text {d : Discriminant} (h : d.IsWritable) {c : Char}
    (hc : c ∈ CutInto.loneMarks) :
    CutInto (d.text.toList ++ [c]) (d.pieces ++ [⟨Kind.ofMark c, String.ofList [c]⟩]) := by
  cases d with
  | number negative literal =>
    obtain ⟨digit, tail, hchars, hdigit⟩ := NumericLiteral.exists_chars_cons h.1
    rw [pieces, List.append_assoc]
    exact cutInto_signed negative hdigit ⟨tail, hchars⟩
      (NumericLiteral.cutInto_chars h.1 (NumericLiteral.isSplit_of_isInteger h.2) hc)
  | byte negative literal =>
    have hliteral := (ByteLiteral.cutInto_chars h).append (.mark hc)
    cases negative with
    | false => simpa [text, pieces, signPieces] using hliteral
    | true =>
      have hsign := CutInto.sign (c := '-') (d := 'b') (.inr rfl) (by decide) hliteral
      have htext : (byte true literal).text.toList ++ [c] = '-' :: (literal.chars ++ [c]) := by
        simp [text]
      rw [htext]
      exact hsign
  | other text pieces => exact h.1.append (.mark hc)

/-- Nothing ends a discriminant inside. -/
theorem unbroken_of_piecesOf {d : Discriminant} (h : d.IsWritable) {ts : List Token}
    (hts : piecesOf ts = d.pieces) : Unbroken endsDiscriminant ts := by
  have hplain {negative : Bool} {p : Piece} (hts : piecesOf ts = signPieces negative ++ [p])
      (hp : p.kind.opens = false ∧ p.kind.closes = false ∧ endsDiscriminant p.kind = false) :
      Unbroken endsDiscriminant ts := by
    have hlast {us : List Token} (hus : piecesOf us = [p]) : Unbroken endsDiscriminant us := by
      obtain ⟨u, vs, rfl, hu, -, hvs⟩ := exists_cons_of_piecesOf hus
      obtain rfl := List.map_eq_nil_iff.1 hvs
      rw [← hu] at hp
      exact .plain hp.1 hp.2.1 hp.2.2 .nil
    cases negative with
    | false => exact hlast hts
    | true =>
      obtain ⟨t, us, rfl, ht, hus⟩ := exists_mark_of_piecesOf hts
      exact .plain (by rw [ht]; rfl) (by rw [ht]; rfl) (by rw [ht]; rfl) (hlast hus)
  cases d with
  | number negative literal => exact hplain hts ⟨rfl, rfl, rfl⟩
  | byte negative literal => exact hplain hts ⟨rfl, rfl, rfl⟩
  | other text pieces => exact h.2 ts hts

end Discriminant

/-- A discriminant is kept as the text of its tokens, up to the one that ends it. -/
theorem discriminant_of_unbroken {t u : Token} {ts us : List Token} (ht : t.kind = .eq)
    (hts : Unbroken endsDiscriminant ts) (hu : endsDiscriminant u.kind) :
    discriminant (t :: (ts ++ u :: us)) = (some (textOf ts), u :: us) := by
  have hopening : ∀ kind : Kind, kind.opens → endsDiscriminant kind = false := by
    intro kind
    cases kind <;> simp [Kind.opens, endsDiscriminant]
  rw [discriminant, if_pos ht, hts.rawSpan_append hopening (.inl hu)]

namespace Discriminant

/-- The pieces of a discriminant with its equals sign, if there is one. -/
def assigned (d : Option Discriminant) : List Piece := d.elim [] fun d => mark .eq :: d.pieces

/-- A discriminant is read up to what ends it. -/
theorem read_of_piecesOf {d : Option Discriminant} (h : ∀ d' ∈ d, d'.IsWritable) {kind : Kind}
    (hkind : endsDiscriminant kind) {ts : List Token} {rest : List Piece}
    (hts : piecesOf ts = assigned d ++ mark kind :: rest) :
    (discriminant ts).1 = d.map written ∧ piecesOf (discriminant ts).2 = mark kind :: rest := by
  cases d with
  | none =>
    obtain ⟨t, us, rfl, ht, -⟩ := exists_mark_of_piecesOf hts
    have hne : t.kind ≠ .eq := by
      rw [ht]
      rintro rfl
      cases hkind
    rw [discriminant, if_neg hne]
    exact ⟨rfl, hts⟩
  | some d =>
    obtain ⟨t, us, rfl, ht, hus⟩ := exists_mark_of_piecesOf hts
    obtain ⟨ds, ws, rfl, hds, hws⟩ := List.map_eq_append_iff.1 hus
    obtain ⟨u, ws, rfl, hu, -⟩ := exists_mark_of_piecesOf hws
    have hwritten : textOf ds = d.written := by
      rw [textOf, written, ← hds, List.map_map]
      rfl
    rw [discriminant_of_unbroken ht (unbroken_of_piecesOf (h d rfl) hds) (hu ▸ hkind), hwritten]
    exact ⟨rfl, hws⟩

end Discriminant

/-! ## Unit variants -/

/-- A unit variant in a source. -/
structure UnitVariant where
  /-- The text in front of the name. -/
  front : String
  preamble : Preamble
  name : String
  discriminant : Option Discriminant

namespace UnitVariant

/-- The text of a variant. -/
def text (v : UnitVariant) : String :=
  v.front ++ v.name ++ v.discriminant.elim "" fun d => " = " ++ d.text

/-- The pieces of a variant behind its preamble. -/
def pieces (v : UnitVariant) : List Piece :=
  Piece.name v.name :: Discriminant.assigned v.discriminant

/-- What a variant is read as. -/
def read (v : UnitVariant) : Variant :=
  ⟨v.name, .unit, [], v.discriminant.map Discriminant.written, v.preamble⟩

/-- Whether a variant is made up of what a source can hold. -/
structure IsWritable (v : UnitVariant) : Prop where
  front : CutInto v.front.toList v.preamble.pieces
  preamble : v.preamble.isWritable
  name : Piece.isName v.name
  discriminant : ∀ d ∈ v.discriminant, d.IsWritable

variable {v : UnitVariant} (h : v.IsWritable)
include h

/-- A variant in front of what ends it is cut into its pieces. -/
theorem cutInto_text {c : Char} (hc : c ∈ [',', '\x7d']) :
    CutInto (v.text.toList ++ [c])
      (v.preamble.pieces ++ (v.pieces ++ [⟨Kind.ofMark c, String.ofList [c]⟩])) := by
  have hlone : c ∈ CutInto.loneMarks ∧ Piece.endsWord c := by
    simp only [List.mem_cons, List.not_mem_nil, or_false] at hc
    rcases hc with rfl | rfl <;> decide
  have hassigned : CutInto (v.name.toList ++
      ((v.discriminant.elim "" fun d => " = " ++ d.text).toList ++ [c]))
      (v.pieces ++ [⟨Kind.ofMark c, String.ofList [c]⟩]) := by
    obtain ⟨front, preamble, name, d⟩ := v
    cases d with
    | none => exact .name h.name hlone.2 (.mark hlone.1)
    | some d =>
      have hblank : CutInto [' '] [] := .layout (List.forall_mem_singleton.2 rfl)
      have heq : CutInto "= ".toList [mark .eq] :=
        .spelling (p := mark .eq) (Piece.legible_mark (by decide))
      have htail := hblank.append (heq.append (Discriminant.cutInto_text (h.discriminant d rfl)
        hlone.1))
      rw [Option.elim_some, String.toList_append, List.append_assoc]
      exact .name h.name (d := ' ') (by decide) htail
  rw [text, String.toList_append, String.toList_append, List.append_assoc, List.append_assoc]
  exact h.front.append hassigned

/-- **A unit variant is read up to what ends it.** -/
theorem reads_variant (eof : Token) (enumName : String) {kind : Kind}
    (hkind : endsDiscriminant kind) (rest : List Piece) :
    Reads (variant eof enumName v.preamble) (v.pieces ++ mark kind :: rest) v.read
      (mark kind :: rest) := by
  intro ts hts
  have hhead : Piece.headKind (Discriminant.assigned v.discriminant ++ mark kind :: rest) = kind ∨
      Piece.headKind (Discriminant.assigned v.discriminant ++ mark kind :: rest) = .eq := by
    cases v.discriminant with
    | none => exact .inl rfl
    | some d => exact .inr rfl
  have hnot {opener : Kind} (hopener : endsDiscriminant opener = false) (heq : .eq ≠ opener) :
      Piece.headKind (Discriminant.assigned v.discriminant ++ mark kind :: rest) ≠ opener := by
    rintro hopens
    rw [hopens] at hhead
    rcases hhead with rfl | h
    · rw [hkind] at hopener
      cases hopener
    · exact heq h.symm
  obtain ⟨n, hn, htext, hleft⟩ := expect_of_name hts eof (.variantOf enumName)
  obtain ⟨r, hr, hvalue, hrest⟩ := reads_variantFields_unit eof (hnot rfl Kind.noConfusion)
    (hnot rfl Kind.noConfusion) n.rest hleft
  obtain ⟨hd, hend⟩ := Discriminant.read_of_piecesOf h.discriminant hkind hrest
  rw [variant, hn]
  simp only [bind, Except.bind, hr]
  refine ⟨_, rfl, ?_, hend⟩
  rw [htext, hvalue, hd]
  rfl

end UnitVariant

/-! ## Enums -/

/-- An enum of unit variants. -/
def unitEnumItem (p : Preamble) (name : String) (generics : List String)
    (variants : List UnitVariant) : Item :=
  ⟨name, generics, p, .enum (variants.map UnitVariant.read)⟩

/-- The source of an enum behind its visibility: its name, the text of its type parameters, variants
with commas behind them, and a last one without. -/
def unitEnum (name params : String) (leading : List UnitVariant) (last : Option UnitVariant) :
    String :=
  "enum " ++ name ++ " " ++ params ++ "\x7b" ++ Text.concat (leading.map (·.text ++ ",")) ++
    last.elim "" UnitVariant.text ++ "\x7d"

/-- The pieces of variants up to the brace that closes the enum. -/
def unitVariantPieces (leading : List UnitVariant) (last : Option UnitVariant) : List Piece :=
  leading.flatMap (fun v => v.preamble.pieces ++ (v.pieces ++ [mark .comma])) ++
    last.elim [mark .rbrace] fun v => v.preamble.pieces ++ (v.pieces ++ [mark .rbrace])

/-- Variants without fields are read back, with a comma behind the last one or without. -/
theorem reads_unitVariants (eof : Token) (enumName : String) {leading : List UnitVariant}
    {last : Option UnitVariant} (h : ∀ v ∈ leading ++ last.toList, v.IsWritable) :
    Reads (members eof .rbrace (fun v : Variant => .afterVariant v.name) (variant eof enumName))
      (unitVariantPieces leading last) ((leading ++ last.toList).map UnitVariant.read) [] := by
  induction leading with
  | nil =>
    cases last with
    | none => exact reads_members_nil eof _ []
    | some v =>
      have hv : v.IsWritable := h v (by simp)
      exact reads_members_behind eof _ rfl hv.preamble rfl
        (UnitVariant.reads_variant hv eof enumName rfl [])
        (reads_parseSeparated_last Kind.noConfusion [])
  | cons v leading ih =>
    obtain ⟨hv, hmore⟩ := List.forall_mem_cons.1 h
    have hread := reads_members_behind eof (fun v : Variant => .afterVariant v.name) rfl hv.preamble
      rfl (UnitVariant.reads_variant hv eof enumName rfl (unitVariantPieces leading last))
      (reads_parseSeparated_cons (ih hmore))
    simpa [unitVariantPieces] using hread

/-- Variants without fields are cut into their pieces. -/
theorem cutInto_unitVariants {leading : List UnitVariant} {last : Option UnitVariant}
    (h : ∀ v ∈ leading ++ last.toList, v.IsWritable) :
    CutInto (Text.concat (leading.map (·.text ++ ",")) ++ last.elim "" UnitVariant.text ++
      "\x7d").toList (unitVariantPieces leading last) := by
  induction leading with
  | nil =>
    cases last with
    | none => exact .mark (c := '\x7d') (by decide)
    | some v =>
      have hv : CutInto (v.text.toList ++ ['\x7d'])
          (v.preamble.pieces ++ (v.pieces ++ [mark .rbrace])) :=
        UnitVariant.cutInto_text (h v (by simp)) (by decide)
      simpa [unitVariantPieces] using hv
  | cons v leading ih =>
    obtain ⟨hv, hmore⟩ := List.forall_mem_cons.1 h
    have hcut : CutInto (v.text.toList ++ [','])
        (v.preamble.pieces ++ (v.pieces ++ [mark .comma])) :=
      UnitVariant.cutInto_text hv (by decide)
    simpa [unitVariantPieces] using hcut.append (ih hmore)

/-- **A source that is cut into an enum of unit variants** has this enum as its only item. -/
theorem parse_unitEnum {p : Preamble} (hp : p.isWritable) {v : Visibility} (hv : v.isWritable)
    {front : String} (hfront : CutInto front.toList (p.pieces ++ v.pieces)) {name : String}
    (hname : Piece.isName name) {params : String} {generics : List String}
    (hparams : CutInto params.toList (genericsPieces generics)) {leading : List UnitVariant}
    {last : Option UnitVariant} (h : ∀ v ∈ leading ++ last.toList, v.IsWritable) :
    parse (front ++ unitEnum name params leading last) =
      .ok [unitEnumItem p name generics (leading ++ last.toList)] := by
  let declaration : List Piece := mark .enum :: Piece.name name ::
    (genericsPieces generics ++ mark .lbrace :: unitVariantPieces leading last)
  have hsource : CutInto (front ++ unitEnum name params leading last).toList
      (p.pieces ++ (v.pieces ++ declaration)) := by
    have henum : CutInto "enum ".toList [mark .enum] :=
      .spelling (p := mark .enum) (Piece.legible_mark (by decide))
    have hblank : CutInto [' '] [] := .layout (List.forall_mem_singleton.2 rfl)
    have hbrace : CutInto ['\x7b'] [mark .lbrace] := .mark (by decide)
    have htail := hblank.append (hparams.append (hbrace.append (cutInto_unitVariants h)))
    have hall := hfront.append (henum.append (CutInto.name hname (by decide) htail))
    have htext : (front ++ unitEnum name params leading last).toList = front.toList ++
        ("enum ".toList ++ (name.toList ++ ' ' :: (params.toList ++ (['\x7b'] ++
          (Text.concat (leading.map (·.text ++ ",")) ++ last.elim "" UnitVariant.text ++
            "\x7d").toList)))) := by
      simp [unitEnum]
    rw [htext, ← List.append_assoc p.pieces]
    exact hall
  have hdoc : Piece.headKind (v.pieces ++ declaration) ≠ .doc :=
    headKind_visibility v Kind.noConfusion Kind.noConfusion
  have hhash : Piece.headKind (v.pieces ++ declaration) ≠ .hash :=
    headKind_visibility v Kind.noConfusion Kind.noConfusion
  have hitem (eof : Token) : ReadsItem eof p declaration
      (unitEnumItem p name generics (leading ++ last.toList)) [] := by
    intro ts hts
    obtain ⟨t, us, rfl, hkind, hus⟩ := exists_mark_of_piecesOf hts
    obtain ⟨r, hr, hvalue, hleft⟩ := reads_enumOf eof p name generics
      (reads_unitVariants eof name h) us hus
    refine ⟨t, us, r, rfl, kind_ne_of_eq hkind Kind.noConfusion,
      kind_ne_of_eq hkind Kind.noConfusion, ?_, hvalue, hleft⟩
    rw [parseItem, if_neg (kind_ne_of_eq hkind Kind.noConfusion), if_pos hkind, hr]
    rfl
  refine parseItems_of_reads hv (p.not_opensInner hhash) (reads_preamble _ hdoc hhash hp) (hitem _)
    (fun ts hts => ?_) hsource.piecesOf_tokenize
  rw [List.map_eq_nil_iff.1 hts, parseItems]

end Rust
end Ferrotype

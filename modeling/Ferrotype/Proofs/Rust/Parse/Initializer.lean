/-
# Initializers of constants

Whatever tokens stand between the equals sign of a constant and the first semicolon outside all
groups, the constant is read up to that semicolon (`outcome_parseConst`). All that is asked of them
is that their groups are nested and that their literals have no bad escapes.

The reader of expressions may stop anywhere in front of the semicolon, at a comma, inside the text
of a binary expression, behind the first of two lists, but what it leaves is unbroken up to the
semicolon, and a list inside a group never gets past the bracket that closes it
(`exists_parseExpr`). So either nothing is left and the expression is the value, or the value is the
text of all tokens.
-/

import Ferrotype.Proofs.Rust.Parse.Outcome
import Ferrotype.Proofs.Rust.Parse.Unbroken
import Ferrotype.Proofs.Rust.Plain.Type
import Ferrotype.Proofs.Rust.Spelling

namespace Ferrotype
namespace Rust

/-! ## Literals without bad escapes -/

open Text.Hexadecimal (isDigit number)

/-- What stands between the quotes of a literal whose escapes are well formed. A backslash stands
before two hexadecimal digits behind `x`, before a code point between braces behind `u`, with
underscores or without, or before any other character. -/
inductive WellEscaped : List Char → Prop
  | nil : WellEscaped []
  | plain {c : Char} {body : List Char} (hbackslash : c ≠ '\\') (h : WellEscaped body) :
    WellEscaped (c :: body)
  | byte {high low : Char} {body : List Char} (hdigits : ∀ d ∈ [high, low], isDigit d)
    (h : WellEscaped body) : WellEscaped ('\\' :: 'x' :: high :: low :: body)
  | codePoint {digits : List Char} {c : Char} {body : List Char}
    (hdigits : ∀ d ∈ digits, isDigit d ∨ d = '_') (hne : digits.filter (· != '_') ≠ [])
    (hvalue : number (digits.filter (· != '_')) = c.toNat) (h : WellEscaped body) :
    WellEscaped ('\\' :: 'u' :: '\x7b' :: (digits ++ '\x7d' :: body))
  | other {e : Char} {body : List Char} (hbyte : e ≠ 'x')
    (hbrace : e = 'u' → body.head? ≠ some '\x7b') (h : WellEscaped body) :
    WellEscaped ('\\' :: e :: body)

/-- A character counts for less than sixteen as a digit. -/
theorem getD_value?_lt (c : Char) : (Text.Hexadecimal.value? c).getD 0 < 16 := by
  have h9 : '9'.toNat = 57 := rfl
  have hf : 'f'.toNat = 102 := rfl
  have hF : 'F'.toNat = 70 := rfl
  unfold Text.Hexadecimal.value?
  split
  · rename_i hc
    have hhigh : c.toNat ≤ '9'.toNat := hc.2
    exact (by omega : c.toNat - 48 < 16)
  · split
    · rename_i hc
      have hhigh : c.toNat ≤ 'f'.toNat := hc.2
      exact (by omega : c.toNat - 87 < 16)
    · split
      · rename_i hc
        have hhigh : c.toNat ≤ 'F'.toNat := hc.2
        exact (by omega : c.toNat - 55 < 16)
      · decide

/-- Two digits denote a byte, and a byte is a code point. -/
theorem exists_codePoint_byte {high low : Char} (hdigits : ∀ d ∈ [high, low], isDigit d) :
    ∃ c, Escape.codePoint [high, low] = .ok c := by
  have hhigh := getD_value?_lt high
  have hlow := getD_value?_lt low
  have hbyte : number [high, low] < 256 := by
    simp only [number, Text.Hexadecimal.numberFrom, List.foldl_cons, List.foldl_nil]
    omega
  have hsmall : ¬ (0x80000000 ≤ (number [high, low] : Int) ∨
      (number [high, low] : Int) < -0x80000000) := by omega
  have hrange : ¬ ((number [high, low] : Int) < 0 ∨ 0x110000 ≤ (number [high, low] : Int)) := by
    omega
  rw [Escape.codePoint, Text.Hexadecimal.read?_of_isDigit hdigits (List.cons_ne_nil _ _)]
  simp only [if_neg hsmall, if_neg hrange]
  exact ⟨_, rfl⟩

/-- **A literal without bad escapes stands for a text**, also behind the layout that it may start
with. -/
theorem WellEscaped.exists_resolve {body : List Char} (h : WellEscaped body) :
    (∃ text, Escape.resolve body = .ok text) ∧
      ∃ text, Escape.resolve (body.dropWhile Escape.isLayout) = .ok text := by
  -- Behind a backslash at the end of a line the reader goes on behind the layout, so both are
  -- carried along; only a plain character can be layout.
  have hboth {e : Char} {body : List Char}
      (hresolve : ∃ text, Escape.resolve ('\\' :: e :: body) = .ok text) :
      (∃ text, Escape.resolve ('\\' :: e :: body) = .ok text) ∧
        ∃ text, Escape.resolve (('\\' :: e :: body).dropWhile Escape.isLayout) = .ok text :=
    ⟨hresolve, hresolve⟩
  induction h with
  | nil =>
    have hnil : Escape.resolve [] = .ok [] := by rw [Escape.resolve]
    exact ⟨⟨[], hnil⟩, [], hnil⟩
  | @plain c body hbackslash _ ih =>
    obtain ⟨⟨text, htext⟩, hlayout⟩ := ih
    have hplain : Escape.resolve (c :: body) = .ok (c :: text) := by
      rw [Escape.resolve, htext]
      · rfl
      · exact fun h _ => hbackslash h
      · exact fun _ _ h _ => hbackslash h
    refine ⟨⟨_, hplain⟩, ?_⟩
    rw [List.dropWhile_cons]
    split
    · exact hlayout
    · exact ⟨_, hplain⟩
  | @byte high low body hdigits _ ih =>
    obtain ⟨⟨text, htext⟩, -⟩ := ih
    obtain ⟨c, hc⟩ := exists_codePoint_byte hdigits
    have hletter : Escape.ofLetter? 'x' = none := rfl
    refine hboth ⟨c :: text, ?_⟩
    rw [Escape.resolve]
    simp only [hletter, List.take_succ_cons, List.take_zero, List.drop_succ_cons, List.drop_zero,
      hc, htext]
    rfl
  | @codePoint digits c body hdigits hne hvalue _ ih =>
    obtain ⟨⟨text, htext⟩, -⟩ := ih
    refine hboth ⟨c :: text, ?_⟩
    rw [resolve_braced hdigits, codePoint_of_filter hdigits hne hvalue, htext]
    rfl
  | @other e body hbyte hbrace _ ih =>
    obtain ⟨⟨text, htext⟩, hlayout⟩ := ih
    refine hboth ?_
    rw [Escape.resolve]
    split
    · exact ⟨_, by rw [htext]; rfl⟩
    · rw [if_neg fun h => hbrace h.1 h.2, if_neg hbyte]
      split
      · exact hlayout
      · exact ⟨_, by rw [htext]; rfl⟩

/-- A token that is no literal with a bad escape. -/
def WellQuoted (t : Token) : Prop :=
  t.kind = .string ∨ t.kind = .char → WellEscaped (Escape.stripQuotes t.text.toList)

/-- A literal without a bad escape has a text. -/
theorem WellQuoted.exists_literalText {t : Token} (h : WellQuoted t)
    (hkind : t.kind = .string ∨ t.kind = .char) : ∃ text, literalText t = .ok text := by
  obtain ⟨⟨text, htext⟩, -⟩ := (h hkind).exists_resolve
  refine ⟨String.ofList text, ?_⟩
  rw [literalText, unquote, htext]
  rfl

/-- A literal without a bad escape is an expression. -/
theorem WellQuoted.exists_literalExpr {t : Token} (h : WellQuoted t) {kind : LiteralKind}
    (hkind : literalKind? t.kind = some kind) : ∃ e, literalExpr t kind = .ok e := by
  have hquoted (hquotes : t.kind = .string ∨ t.kind = .char) :
      ∃ e, (literalText t).map (Expr.literal · kind) = .ok e := by
    obtain ⟨text, htext⟩ := h.exists_literalText hquotes
    exact ⟨_, by rw [htext]; rfl⟩
  unfold literalExpr
  cases kind with
  | string =>
    refine hquoted (.inl ?_)
    revert hkind
    cases t.kind <;> simp [literalKind?]
  | char =>
    refine hquoted (.inr ?_)
    revert hkind
    cases t.kind <;> simp [literalKind?]
  | number | bool | other => exact ⟨_, rfl⟩

/-! ## Expressions in front of an end -/

section Exprs

variable (eof : Token)

/-- The reader of expressions gives one and leaves an unbroken rest, if its tokens are unbroken up
to a comma, a semicolon or a bracket that closes. -/
def StopsBefore (ts : List Token) : Prop :=
  ∀ stops inner u us, ts = inner ++ u :: us → Unbroken stops inner →
    endsRaw u.kind ∨ u.kind.closes → (∀ t ∈ inner, WellQuoted t) →
    ∃ e, parseExpr eof ts = .ok e ∧ ∃ left, e.rest = left ++ u :: us ∧ Unbroken stops left ∧
      left <:+ inner

/-- The reader of lists gives none or one that ends with its group, if the tokens in that are
nested. -/
def StaysInside (closer : Kind) (ts : List Token) : Prop :=
  ∀ inner u us, ts = inner ++ u :: us → Nested inner → u.kind = closer → closer.closes →
    (∀ t ∈ inner, WellQuoted t) →
    ∃ r, parseList eof closer ts = .ok r ∧ ∀ p ∈ r, p.rest = us

variable {eof}

/-- A token that ends no expression stands in front of the end. -/
theorem exists_cons_of_append {t u : Token} {ts inner us : List Token}
    (h : t :: ts = inner ++ u :: us) (ht : endsRaw t.kind = false ∧ t.kind.closes = false)
    (hu : endsRaw u.kind ∨ u.kind.closes) :
    ∃ inner', inner = t :: inner' ∧ ts = inner' ++ u :: us := by
  cases inner with
  | nil =>
    obtain ⟨rfl, -⟩ := List.cons.inj h
    rw [ht.1, ht.2] at hu
    exact absurd hu (by decide)
  | cons t' inner =>
    obtain ⟨rfl, rfl⟩ := List.cons.inj h
    exact ⟨inner, rfl, rfl⟩

/-- An expression that is kept as text stops in front of a stop. -/
theorem stopsBefore_rawExpr {ts : List Token} (h : parseExpr eof ts = .ok (rawExpr ts)) :
    StopsBefore eof ts := by
  rintro stops inner u us rfl hinner hu -
  obtain ⟨left, hrest, hleft, hsuffix⟩ := hinner.exists_rest hu us
  exact ⟨_, h, left, hrest, hleft, hsuffix⟩

/-- A sign in front of an expression. -/
theorem stopsBefore_sign {t : Token} {ts : List Token} (sign : Expr → Expr)
    (ht : endsRaw t.kind = false ∧ t.kind.closes = false ∧ t.kind.opens = false)
    (hexpr : parseExpr eof (t :: ts) = parseExpr eof ts >>= fun e => .ok (e.map sign).later)
    (ih : StopsBefore eof ts) : StopsBefore eof (t :: ts) := by
  intro stops inner u us hts hinner hu hquoted
  obtain ⟨inner, rfl, rfl⟩ := exists_cons_of_append hts ⟨ht.1, ht.2.1⟩ hu
  obtain ⟨e, he, left, hrest, hleft, hsuffix⟩ := ih stops inner u us rfl (hinner.of_cons ht.2.2) hu
    fun t ht => hquoted t (List.mem_cons_of_mem _ ht)
  refine ⟨(e.map sign).later, ?_, left, hrest, hleft, hsuffix.trans (List.suffix_cons t inner)⟩
  rw [hexpr, he]
  rfl

/-- A list in brackets, or the text that starts with one. -/
theorem stopsBefore_list {t : Token} {ts : List Token} {closer : Kind}
    {node : List Expr → Expr} (h : Encloses t.kind closer node) (ih : StaysInside eof closer ts) :
    StopsBefore eof (t :: ts) := by
  intro stops inner u us hts hinner hu hquoted
  obtain ⟨hopens, hcloses⟩ := h.opens_closes
  have hends : endsRaw t.kind = false := by
    revert hopens
    cases t.kind <;> simp [Kind.opens, endsRaw]
  obtain ⟨inner, rfl, rfl⟩ :=
    exists_cons_of_append hts ⟨hends, Kind.not_closes_of_opens hopens⟩ hu
  have hcloser : t.kind.closer? = some closer := by
    cases h with
    | array hkind => rw [hkind]; rfl
    | parentheses hkind => rw [hkind]; rfl
  obtain ⟨group, v, more, rfl, hv, hgroup, hmore⟩ := hinner.exists_group hcloser
  obtain ⟨r, hr, hrest⟩ := ih group v (more ++ u :: us) (by simp) hgroup hv hcloses
    fun t ht => hquoted t (by simp [ht])
  rw [parseExpr_of_encloses h, hr]
  cases r with
  | none =>
    obtain ⟨left, hleft, hunbroken, hsuffix⟩ := hinner.exists_rest hu us
    exact ⟨_, rfl, left, hleft, hunbroken, hsuffix⟩
  | some p =>
    exact ⟨_, rfl, more, hrest p rfl, hmore, ⟨t :: (group ++ [v]), by simp⟩⟩

/-- Expressions stop in front of the first token that no group holds, and lists stay inside their
group. The induction is on the number of tokens, for both together; every path of the parser is a
case. -/
theorem stopsBefore_exprs :
    (∀ ts, StopsBefore eof ts) ∧ ∀ closer ts, StaysInside eof closer ts := by
  refine parseExpr.mutual_induct _ _ ?nothing ?reference ?minus ?literal ?array ?group ?raw
    ?noElement ?closer ?element
  case nothing => exact stopsBefore_rawExpr (by rw [parseExpr])
  case reference =>
    intro t ts hkind ih
    refine stopsBefore_sign id (by simp [hkind, endsRaw, Kind.closes, Kind.opens]) ?_ ih
    rw [parseExpr, if_pos hkind]
    rfl
  case minus =>
    intro t ts h₁ hkind ih
    refine stopsBefore_sign (.unary "-") (by simp [hkind, endsRaw, Kind.closes, Kind.opens]) ?_ ih
    rw [parseExpr, if_neg h₁, if_pos hkind]
  case literal =>
    intro t ts h₁ h₂ kind hkind stops inner u us hts hinner hu hquoted
    have ht : endsRaw t.kind = false ∧ t.kind.closes = false ∧ t.kind.opens = false := by
      revert hkind
      cases t.kind <;> simp [literalKind?, Kind.opens, Kind.closes, endsRaw]
    obtain ⟨inner, rfl, rfl⟩ := exists_cons_of_append hts ⟨ht.1, ht.2.1⟩ hu
    obtain ⟨e, he⟩ := (hquoted t List.mem_cons_self).exists_literalExpr hkind
    refine ⟨(Parsed.past e t (inner ++ u :: us)).later, ?_, inner, rfl, hinner.of_cons ht.2.2,
      List.suffix_cons t inner⟩
    rw [parseExpr, if_neg h₁, if_neg h₂]
    simp only [hkind, he]
    rfl
  case array =>
    intro t ts _ _ _ hkind ih
    exact stopsBefore_list (.array hkind) ih
  case group =>
    intro t ts _ _ _ _ hkind ih
    exact stopsBefore_list (.parentheses hkind) ih
  case raw =>
    intro t ts h₁ h₂ hliteral h₃ h₄
    refine stopsBefore_rawExpr ?_
    rw [parseExpr, if_neg h₁, if_neg h₂]
    simp only [hliteral]
    rw [if_neg h₃, if_neg h₄]
  case noElement =>
    intro closer inner u us hts
    exact absurd hts (by simp)
  case closer =>
    intro t ts inner u us hts hinner hu hcloses hquoted
    cases inner with
    | nil =>
      obtain ⟨rfl, rfl⟩ := List.cons.inj hts
      rw [parseList, if_pos rfl]
      exact ⟨_, rfl, by rintro p ⟨⟩; rfl⟩
    | cons v inner =>
      obtain ⟨rfl, -⟩ := List.cons.inj hts
      rw [hinner.unbroken.not_closes] at hcloses
      cases hcloses
  case element =>
    intro closer t ts hkind ihexpr ih inner u us hts hinner hu hcloses hquoted
    -- the first member stops inside the group; what it leaves of it decides
    obtain ⟨e, he, left, hrest, hleft, hsuffix⟩ :=
      ihexpr _ inner u us hts hinner.unbroken (.inr (hu ▸ hcloses)) hquoted
    have hcomma : u.kind ≠ .comma := by
      rintro heq
      rw [← hu, heq] at hcloses
      cases hcloses
    rw [parseList, if_neg hkind, he]
    simp only [bind, Except.bind]
    split
    · rename_i hnil
      rw [hrest] at hnil
      exact absurd hnil (by simp)
    · rename_i v vs hv
      cases left with
      | nil =>
        rw [hrest, List.nil_append] at hv
        obtain ⟨rfl, rfl⟩ := List.cons.inj hv
        rw [if_neg hcomma, if_pos hu]
        exact ⟨_, rfl, by rintro p ⟨⟩; rfl⟩
      | cons w left =>
        rw [hrest, List.cons_append] at hv
        obtain ⟨rfl, rfl⟩ := List.cons.inj hv
        split
        · rename_i hw
          obtain ⟨r, hr, hrests⟩ := ih e w (left ++ u :: us) hrest left u us rfl
            (hleft.of_cons (by rw [hw]; rfl)).nested hu hcloses fun t ht =>
              hquoted t (hsuffix.subset (List.mem_cons_of_mem _ ht))
          rw [hr]
          cases r with
          | none => exact ⟨none, rfl, by rintro p ⟨⟩⟩
          | some more => exact ⟨_, rfl, by rintro p ⟨⟩; exact hrests more rfl⟩
        · have hnot : w.kind ≠ closer := by
            rintro rfl
            rw [hleft.not_closes] at hcloses
            cases hcloses
          rw [if_neg hnot]
          exact ⟨none, rfl, by rintro p ⟨⟩⟩

end Exprs

/-! ## Constants -/

section Constants

variable (eof : Token)

/-- The text of an initializer is taken up to the semicolon behind it. -/
theorem rawSpan_initializer {init : List Token} (h : Unbroken (· == .semicolon) init)
    {semi : Token} (hsemi : semi.kind = .semicolon) (after : List Token) :
    rawSpan (· == .semicolon) 0 (init ++ semi :: after) = (init, semi :: after) := by
  refine h.rawSpan_append (fun kind hopens => ?_) (.inl (by simp [hsemi])) after
  revert hopens
  cases kind <;> simp [Kind.opens]

/-- No unbroken rest of an initializer starts with a semicolon. -/
theorem headKind_unread {unread : List Token} (h : Unbroken (· == .semicolon) unread)
    {semi : Token} (hsemi : semi.kind = .semicolon) (after : List Token) :
    headKind (unread ++ semi :: after) = .semicolon ↔ unread = [] := by
  cases h with
  | nil => simp [hsemi]
  | plain _ _ hstops => simpa using hstops
  | group hcloser =>
    have hopens := Kind.opens_of_closer? hcloser
    refine iff_of_false (fun hkind => ?_) (List.cons_ne_nil _ _)
    rw [List.cons_append, headKind_cons] at hkind
    rw [hkind] at hopens
    cases hopens

/-- The initializer is the expression if that is all, and otherwise the text of all tokens up to the
semicolon. -/
theorem outcome_initializer {init : List Token} (h : Unbroken (· == .semicolon) init)
    (hquoted : ∀ t ∈ init, WellQuoted t) {semi : Token} (hsemi : semi.kind = .semicolon)
    (after : List Token) : ∃ value unread, unread <:+ init ∧
      outcome (parseExpr eof (init ++ semi :: after)) = .ok (value, unread ++ semi :: after) ∧
      outcome (initializer eof (init ++ semi :: after)) =
        .ok (if unread = [] then value else .raw (textOf init), semi :: after) := by
  obtain ⟨e, he, unread, hrest, hunread, hsuffix⟩ := stopsBefore_exprs.1 _ _ init semi after rfl h
    (.inl (by rw [hsemi]; rfl)) hquoted
  have hhead := headKind_unread hunread hsemi after
  rw [← hrest] at hhead
  refine ⟨e.value, unread, hsuffix, ?_, ?_⟩
  · rw [he, ← hrest]
    rfl
  · rw [initializer, he]
    refine outcome_eq_ok ?_
    simp only [bind, Except.bind, rawSpan_initializer h hsemi after]
    split
    · rename_i hsemicolon
      have hnil := hhead.1 hsemicolon
      rw [hnil] at hrest
      exact ⟨e, rfl, (if_pos hnil).symm, hrest⟩
    · rename_i hsemicolon
      exact ⟨_, rfl, (if_neg fun hnil => hsemicolon (hhead.2 hnil)).symm, rfl⟩

variable (p : Preamble) {name colon eq semi : Token} {ts init after : List Token}
  {type : TypeExpr}

/-- **No initializer derails the reader of constants.** If the tokens between the equals sign and
the first semicolon outside all groups have nested groups and no bad escapes, whatever else they
are, the constant is read and what follows the semicolon is left. If the expression that they start
with leaves none of them unread, it is the value; otherwise the value is the text of all of them. -/
theorem outcome_parseConst_unbroken (hname : name.kind = .identifier) (hcolon : colon.kind = .colon)
    (htype : outcome (parseType eof ts) = .ok (type, eq :: (init ++ semi :: after)))
    (heq : eq.kind = .eq) (hsemi : semi.kind = .semicolon) (hinit : Unbroken (· == .semicolon) init)
    (hquoted : ∀ t ∈ init, WellQuoted t) : ∃ value unread, unread <:+ init ∧
      outcome (parseExpr eof (init ++ semi :: after)) = .ok (value, unread ++ semi :: after) ∧
      outcome (parseConst eof p (name :: colon :: ts)) =
        .ok (⟨name.text, [], p,
          .const type (some (if unread = [] then value else .raw (textOf init)))⟩, after) := by
  obtain ⟨value, unread, hsuffix, hexpr, hinitializer⟩ :=
    outcome_initializer eof hinit hquoted hsemi after
  refine ⟨value, unread, hsuffix, hexpr, ?_⟩
  have hvalue : outcome (constValue eof (eq :: (init ++ semi :: after))) =
      .ok (some (if unread = [] then value else .raw (textOf init)), semi :: after) := by
    have hbind : outcome (constValue eof (eq :: (init ++ semi :: after))) =
        outcome (initializer eof (init ++ semi :: after)) >>= fun (value, rest) =>
          .ok (some value, rest) := by
      rw [constValue, if_pos heq]
      exact outcome_bind fun _ => rfl
    rw [hbind, hinitializer]
    rfl
  rw [outcome_parseConst, outcome_expect eof hname]
  simp only [bind, Except.bind, outcome_expect eof hcolon, htype, hvalue, outcome_expect eof hsemi]

/-- A list with a semicolon in it, and a comma and a name behind it: the reader of expressions stops
at the comma. -/
def brokenInitializer : List Token :=
  [⟨.lbracket, "[", ⟨1, 15⟩⟩, ⟨.string, "\"\\n\"", ⟨1, 16⟩⟩, ⟨.semicolon, ";", ⟨1, 20⟩⟩,
    ⟨.number, "3", ⟨1, 22⟩⟩, ⟨.rbracket, "]", ⟨1, 23⟩⟩, ⟨.comma, ",", ⟨1, 24⟩⟩,
    ⟨.identifier, "x", ⟨1, 26⟩⟩]

/-- The constant is read all the same, up to its semicolon. -/
theorem outcome_parseConst_brokenInitializer :
    let name : Token := ⟨.identifier, "X", ⟨1, 7⟩⟩
    let colon : Token := ⟨.colon, ":", ⟨1, 8⟩⟩
    let eq : Token := ⟨.eq, "=", ⟨1, 13⟩⟩
    let semi : Token := ⟨.semicolon, ";", ⟨1, 27⟩⟩
    let ts : List Token := ⟨.identifier, "u8", ⟨1, 10⟩⟩ :: eq :: (brokenInitializer ++ [semi])
    (name.kind = .identifier ∧ colon.kind = .colon ∧
      outcome (parseType (.eof ⟨1, 28⟩) ts) =
        .ok (.primitive "u8", eq :: (brokenInitializer ++ [semi])) ∧
      eq.kind = .eq ∧ semi.kind = .semicolon ∧ Unbroken (· == .semicolon) brokenInitializer ∧
      ∀ t ∈ brokenInitializer, WellQuoted t) ∧
    (∃ value unread, unread <:+ brokenInitializer ∧
      outcome (parseExpr (.eof ⟨1, 28⟩) (brokenInitializer ++ [semi])) =
        .ok (value, unread ++ [semi]) ∧
      outcome (parseConst (.eof ⟨1, 28⟩) ⟨[], []⟩ (name :: colon :: ts)) =
        .ok (⟨"X", [], ⟨[], []⟩, .const (.primitive "u8")
          (some (if unread = [] then value else .raw (textOf brokenInitializer)))⟩, [])) ∧
    textOf brokenInitializer = "[\"\\n\"; 3], x" := by
  intro name colon eq semi ts
  have hname : name.kind = .identifier := rfl
  have hcolon : colon.kind = .colon := rfl
  have heq : eq.kind = .eq := rfl
  have hsemi : semi.kind = .semicolon := rfl
  have hread : IsType (.eof ⟨1, 28⟩) [⟨.identifier, "u8", ⟨1, 10⟩⟩] (.primitive "u8") :=
    isType_of_readAsType _ (readAsType_scalar _ (by decide)) rfl
  have htype : outcome (parseType (.eof ⟨1, 28⟩) ts) =
      .ok (.primitive "u8", eq :: (brokenInitializer ++ [semi])) :=
    outcome_eq_ok (hread (eq :: (brokenInitializer ++ [semi])) (by decide))
  have hinit : Unbroken (· == .semicolon) brokenInitializer :=
    .group rfl (.plain rfl rfl (.plain rfl rfl (.plain rfl rfl .nil)))
      (.plain rfl rfl rfl (.plain rfl rfl rfl .nil))
  have hquoted : ∀ t ∈ brokenInitializer, WellQuoted t := by
    intro t ht hkind
    simp only [brokenInitializer, List.mem_cons, List.not_mem_nil, or_false] at ht
    rcases ht with rfl | rfl | rfl | rfl | rfl | rfl | rfl
    case inr.inl =>
      have hbody : WellEscaped ['\\', 'n'] := .other (by decide) (by decide) .nil
      exact hbody
    all_goals exact absurd hkind (by decide)
  exact ⟨⟨hname, hcolon, htype, heq, hsemi, hinit, hquoted⟩,
    outcome_parseConst_unbroken (.eof ⟨1, 28⟩) ⟨[], []⟩ hname hcolon htype heq hsemi hinit hquoted,
    by decide⟩

end Constants

end Rust
end Ferrotype

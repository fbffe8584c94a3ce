/-
# The numbers in the values of constants

A number in the value of a constant is a token of the source, as it stands there. So it is a
numeral (`isNumeral_of_parse`): a text that is read as several tokens is no number in any item.
-/

import Ferrotype.Proofs.Rust.Tokenize.Tiling
import Ferrotype.Proofs.Rust.Walk.Item

namespace Ferrotype
namespace Rust

mutual

/-- The texts of the numbers in an expression. -/
def Expr.numbers : Expr → List String
  | .literal text kind => if kind = .number then [text] else []
  | .unary _ operand => operand.numbers
  | .array elements => Expr.numbersAll elements
  | .tuple elements => Expr.numbersAll elements
  | .raw _ => []
  | .unknown _ => []

/-- The texts of the numbers in expressions. -/
def Expr.numbersAll : List Expr → List String
  | [] => []
  | e :: es => e.numbers ++ Expr.numbersAll es

end

/-- The texts of the numbers in the value of a constant. -/
def Item.numbers (item : Item) : List String :=
  match item.body with
  | .const _ (some value) => value.numbers
  | _ => []

/-- Whether a text is that of a number among the tokens. -/
def IsNumberOf (ts : List Token) (text : String) : Prop :=
  ∃ t ∈ ts, t.kind = .number ∧ t.text = text

/-- The numbers among the last tokens are numbers of all. -/
theorem IsNumberOf.mono {ts us : List Token} {text : String} (h : IsNumberOf us text)
    (hsuffix : us <:+ ts) : IsNumberOf ts text := by
  obtain ⟨t, ht, hnumber⟩ := h
  exact ⟨t, hsuffix.subset ht, hnumber⟩

/-- The number of a literal is the text of its token. -/
theorem isNumberOf_of_literalExpr {t : Token} {ts : List Token} {kind : LiteralKind} {e : Expr}
    (hkind : literalKind? t.kind = some kind) (h : literalExpr t kind = .ok e) :
    ∀ text ∈ e.numbers, IsNumberOf (t :: ts) text := by
  intro text htext
  have hliteral : ∃ s, e = .literal s kind ∧ (kind = .number → s = t.text) := by
    revert h
    unfold literalExpr
    split
    · intro h
      cases hs : literalText t with
      | error e => simp [hs, Except.map] at h
      | ok s =>
        rw [hs] at h
        exact ⟨s, (Except.ok.inj h).symm, LiteralKind.noConfusion⟩
    · intro h
      cases hs : literalText t with
      | error e => simp [hs, Except.map] at h
      | ok s =>
        rw [hs] at h
        exact ⟨s, (Except.ok.inj h).symm, LiteralKind.noConfusion⟩
    · intro h
      exact ⟨t.text, (Except.ok.inj h).symm, fun _ => rfl⟩
  obtain ⟨s, rfl, hs⟩ := hliteral
  rw [Expr.numbers] at htext
  split at htext
  · rename_i hnumber
    rw [List.mem_singleton.1 htext, hs hnumber]
    refine ⟨t, List.mem_cons_self, ?_, rfl⟩
    rw [hnumber] at hkind
    revert hkind
    fun_cases literalKind? t.kind <;> simp_all
  · cases htext

/-- Parentheses have the numbers of what they hold. -/
theorem numbers_ofParenthesized (es : List Expr) :
    (ofParenthesized es).numbers = Expr.numbersAll es := by
  fun_cases ofParenthesized es with
  | case1 e => rw [Expr.numbersAll, Expr.numbersAll, List.append_nil]
  | case2 => rw [Expr.numbers]

section Exprs

variable (eof : Token)

/-- The numbers of an expression are texts of the tokens it was read from. The induction is on the
number of tokens, for expressions and lists together. -/
theorem isNumberOf_of_exprs :
    (∀ ts r, parseExpr eof ts = .ok r → ∀ text ∈ r.value.numbers, IsNumberOf ts text) ∧
    ∀ closer ts r, parseList eof closer ts = .ok (some r) →
      ∀ text ∈ Expr.numbersAll r.value, IsNumberOf ts text := by
  refine parseExpr.mutual_induct _ _ ?nothing ?reference ?minus ?literal ?array ?group ?raw
    ?noElement ?closer ?element
  case nothing =>
    intro r hr
    rw [parseExpr] at hr
    cases hr
    rintro text ⟨⟩
  case reference =>
    intro t ts hkind ih r hr text htext
    rw [parseExpr, if_pos hkind] at hr
    obtain ⟨e, he, hr⟩ := exists_of_bind_ok hr
    cases hr
    exact (ih e he text htext).mono (List.suffix_cons _ _)
  case minus =>
    intro t ts h₁ hkind ih r hr text htext
    rw [parseExpr, if_neg h₁, if_pos hkind] at hr
    obtain ⟨e, he, hr⟩ := exists_of_bind_ok hr
    cases hr
    exact (ih e he text htext).mono (List.suffix_cons _ _)
  case literal =>
    intro t ts h₁ h₂ kind hkind r hr text htext
    rw [parseExpr, if_neg h₁, if_neg h₂] at hr
    simp only [hkind] at hr
    obtain ⟨e, he, hr⟩ := exists_of_bind_ok hr
    cases hr
    exact isNumberOf_of_literalExpr hkind he text htext
  case array =>
    intro t ts _ _ _ hkind ih r hr text htext
    rcases exists_list_of_encloses (.array hkind) hr with ⟨-, rfl⟩ | ⟨elements, helements, rfl⟩
    · cases htext
    · exact (ih elements helements text htext).mono (List.suffix_cons _ _)
  case group =>
    intro t ts _ _ _ _ hkind ih r hr text htext
    rcases exists_list_of_encloses (.parentheses hkind) hr with
      ⟨-, rfl⟩ | ⟨elements, helements, rfl⟩
    · cases htext
    · rw [Parsed.value_later, Parsed.value_later, Parsed.value_map,
        numbers_ofParenthesized] at htext
      exact (ih elements helements text htext).mono (List.suffix_cons _ _)
  case raw =>
    intro t ts h₁ h₂ hliteral h₃ h₄ r hr text htext
    rw [parseExpr, if_neg h₁, if_neg h₂] at hr
    simp only [hliteral] at hr
    rw [if_neg h₃, if_neg h₄] at hr
    cases hr
    cases htext
  case noElement =>
    intro closer r hr
    rw [parseList] at hr
    cases hr
  case closer =>
    intro t ts r hr
    rw [parseList, if_pos rfl] at hr
    cases hr
    rintro text ⟨⟩
  case element =>
    intro closer t ts hkind ihexpr ih r hr text htext
    rw [parseList, if_neg hkind] at hr
    obtain ⟨e, he, hr⟩ := exists_of_bind_ok hr
    have hsuffix : e.rest <:+ t :: ts := (Walk.follows_expr _).suffix he
    split at hr
    · cases hr
    · rename_i u us hrest
      have hus : us <:+ t :: ts := (List.suffix_cons u us).trans (hrest ▸ hsuffix)
      split at hr
      · obtain ⟨more, hmore, hr⟩ := exists_of_bind_ok hr
        cases more with
        | none => cases hr
        | some more =>
          cases hr
          rcases List.mem_append.1 htext with htext | htext
          · exact ihexpr e he text htext
          · exact (ih e u us hrest more hmore text htext).mono hus
      · split at hr
        · cases hr
          rcases List.mem_append.1 htext with htext | htext
          · exact ihexpr e he text htext
          · cases htext
        · cases hr

/-- The same of an initializer; one that is kept as text has no numbers. -/
theorem isNumberOf_of_initializer {ts : List Token} {r : Parsed Expr (ts.length + 1)}
    (h : initializer eof ts = .ok r) : ∀ text ∈ r.value.numbers, IsNumberOf ts text := by
  obtain ⟨e, he, h⟩ := exists_of_bind_ok h
  split at h
  · cases h
    exact (isNumberOf_of_exprs eof).1 ts _ he
  · cases h
    rintro text ⟨⟩

/-- The same of the value of a constant. -/
theorem isNumberOf_of_constValue {ts : List Token} {r : Parsed (Option Expr) (ts.length + 1)}
    (h : constValue eof ts = .ok r) :
    ∀ e, r.value = some e → ∀ text ∈ e.numbers, IsNumberOf ts text := by
  cases ts with
  | nil =>
    cases h
    rintro e ⟨⟩
  | cons t ts =>
    rw [constValue] at h
    split at h
    · obtain ⟨e, he, h⟩ := exists_of_bind_ok h
      cases h
      rintro _ ⟨⟩ text htext
      exact (isNumberOf_of_initializer eof he text htext).mono (List.suffix_cons _ _)
    · cases h
      rintro e ⟨⟩

end Exprs

section Items

variable (eof : Token)

/-- The numbers in the value of a constant are tokens behind its keyword. -/
theorem isNumberOf_of_parseConst {p : Preamble} {ts : List Token} {r : Parsed Item ts.length}
    (h : parseConst eof p ts = .ok r) : ∀ text ∈ r.value.numbers, IsNumberOf ts text := by
  obtain ⟨name, hname, h⟩ := exists_of_bind_ok h
  obtain ⟨colon, hcolon, h⟩ := exists_of_bind_ok h
  obtain ⟨type, htype, h⟩ := exists_of_bind_ok h
  obtain ⟨value, hvalue, h⟩ := exists_of_bind_ok h
  obtain ⟨closing, hclosing, h⟩ := exists_of_bind_ok h
  cases h
  intro text htext
  have hsuffix : type.rest <:+ ts :=
    ((Walk.follows_type _).suffix htype).trans
      (((Walk.follows_expects _ _ _ _).suffix hcolon).trans
        ((Walk.follows_expects _ _ _ _).suffix hname))
  cases hexpr : value.value with
  | none => simp [Item.numbers, hexpr] at htext
  | some e =>
    simp only [Item.numbers, hexpr] at htext
    exact (isNumberOf_of_constValue eof hvalue e hexpr text htext).mono hsuffix

/-- The body of a struct is that of a struct, in each of its three shapes. -/
theorem body_of_structBody {name : String} {ts : List Token} {r : Parsed Body (ts.length + 1)}
    (h : structBody eof name ts = .ok r) : ∃ shape fields, r.value = .struct shape fields := by
  cases ts with
  | nil => cases h
  | cons t ts =>
    rw [structBody] at h
    split at h
    · obtain ⟨fields, -, h⟩ := exists_of_bind_ok h
      cases h
      exact ⟨_, _, rfl⟩
    · split at h
      · obtain ⟨fields, -, h⟩ := exists_of_bind_ok h
        obtain ⟨closing, -, h⟩ := exists_of_bind_ok h
        cases h
        exact ⟨_, _, rfl⟩
      · obtain ⟨closing, -, h⟩ := exists_of_bind_ok h
        cases h
        exact ⟨_, _, rfl⟩

/-- Structs have no numbers. -/
theorem numbers_of_parseStruct {p : Preamble} {ts : List Token} {r : Parsed Item ts.length}
    (h : parseStruct eof p ts = .ok r) : r.value.numbers = [] := by
  obtain ⟨name, -, h⟩ := exists_of_bind_ok h
  obtain ⟨params, -, h⟩ := exists_of_bind_ok h
  obtain ⟨body, hbody, h⟩ := exists_of_bind_ok h
  cases h
  obtain ⟨shape, fields, hvalue⟩ := body_of_structBody eof hbody
  simp only [Item.numbers, hvalue]

/-- Enums have no numbers; a discriminant is kept as text. -/
theorem numbers_of_parseEnum {p : Preamble} {ts : List Token} {r : Parsed Item ts.length}
    (h : parseEnum eof p ts = .ok r) : r.value.numbers = [] := by
  obtain ⟨name, -, h⟩ := exists_of_bind_ok h
  obtain ⟨params, -, h⟩ := exists_of_bind_ok h
  obtain ⟨opening, -, h⟩ := exists_of_bind_ok h
  obtain ⟨variants, -, h⟩ := exists_of_bind_ok h
  cases h
  rfl

/-- Type aliases have no numbers. -/
theorem numbers_of_parseAlias {p : Preamble} {ts : List Token} {r : Parsed Item ts.length}
    (h : parseAlias eof p ts = .ok r) : r.value.numbers = [] := by
  obtain ⟨name, -, h⟩ := exists_of_bind_ok h
  obtain ⟨params, -, h⟩ := exists_of_bind_ok h
  obtain ⟨eq, -, h⟩ := exists_of_bind_ok h
  obtain ⟨type, -, h⟩ := exists_of_bind_ok h
  obtain ⟨closing, -, h⟩ := exists_of_bind_ok h
  cases h
  rfl

/-- The numbers of an item are texts of the tokens it was read from. -/
theorem isNumberOf_of_parseItem {p : Preamble} {t : Token} {ts : List Token}
    {r : Parsed Item ts.length} (h : parseItem eof p t ts = .ok (some r)) :
    ∀ text ∈ r.value.numbers, IsNumberOf ts text := by
  have hnone (hnumbers : r.value.numbers = []) : ∀ text ∈ r.value.numbers, IsNumberOf ts text := by
    rw [hnumbers]
    rintro text ⟨⟩
  unfold parseItem at h
  split at h
  · exact hnone (numbers_of_parseStruct eof (ok_of_map_some h))
  · split at h
    · exact hnone (numbers_of_parseEnum eof (ok_of_map_some h))
    · split at h
      · exact isNumberOf_of_parseConst eof (ok_of_map_some h)
      · split at h
        · exact hnone (numbers_of_parseAlias eof (ok_of_map_some h))
        · cases h

/-- The numbers of a file are texts of its tokens. The induction is on their number. -/
theorem isNumberOf_of_parseItems {ts : List Token} {items : List Item}
    (h : parseItems eof ts = .ok items) :
    ∀ item ∈ items, ∀ text ∈ item.numbers, IsNumberOf ts text := by
  induction ts using parseItems.induct generalizing items with
  | case1 =>
    rw [parseItems] at h
    cases h
    rintro item ⟨⟩
  | case2 t ts hkind ih =>
    rw [parseItems, if_pos hkind] at h
    have hsuffix : dropUnit (ts.drop 1) <:+ t :: ts :=
      (Walk.passes_skipUnit _).suffix.trans ((List.drop_suffix 1 ts).trans (List.suffix_cons _ _))
    exact fun item hitem text htext => (ih h item hitem text htext).mono hsuffix
  | case3 t ts hkind ihitem ihrest =>
    rw [parseItems, if_neg hkind] at h
    obtain ⟨p, hp, h⟩ := exists_of_bind_ok h
    have hsuffix : dropVisibility p.rest <:+ t :: ts :=
      (Walk.passes_skipVisibility _).suffix.trans ((Walk.follows_preamble _).suffix hp)
    split at h
    · cases h
      rintro item ⟨⟩
    · rename_i u us hbody
      rw [hbody] at hsuffix
      have hus : us <:+ t :: ts := (List.suffix_cons u us).trans hsuffix
      obtain ⟨found, hfound, h⟩ := exists_of_bind_ok h
      cases found with
      | none =>
        have hskip := (Walk.passes_skipItem (u :: us)).suffix.trans hsuffix
        exact fun item hitem text htext =>
          (ihrest p u us hbody h item hitem text htext).mono hskip
      | some found =>
        obtain ⟨more, hmore, h⟩ := exists_of_bind_ok h
        cases h
        intro item hitem text htext
        rcases List.mem_cons.1 hitem with rfl | hitem
        · exact (isNumberOf_of_parseItem eof hfound text htext).mono hus
        · exact (ihitem p u us hbody found hmore item hitem text htext).mono
            ((Walk.suffix_of_parseItem hfound).trans hsuffix)

end Items

/-- **The numbers in the items of a source are numerals.** -/
theorem isNumeral_of_parse {source : String} {items : List Item} (h : parse source = .ok items) :
    ∀ item ∈ items, ∀ text ∈ item.numbers, isNumeral text.toList := by
  intro item hitem text htext
  obtain ⟨t, ht, hkind, rfl⟩ := isNumberOf_of_parseItems _ h item hitem text htext
  exact isNumeral_of_mem_tokenize ht hkind

end Rust
end Ferrotype

/-
# Directives

A directive is an attribute `#[serde(key = "value")]`. However its literal is spelled, it is read as
one argument with the string that the literal stands for (`exists_pieces_directive`). What the
translator takes from it is that string, unless it starts like the nested form
`serialize = "a", deserialize = "b"`: a string of this form is shortened, so it is never taken as it
is (`effectiveValue_eq_some_iff`).

`directive_means` puts both together, with what a field that is renamed and an enum that is tagged
come to.
-/

import Ferrotype.Proofs.Rust.Canonical.Preamble
import Ferrotype.Proofs.Rust.Spelling
import Ferrotype.Proofs.TypeScript.Key
import Ferrotype.Translate.Enum

namespace Ferrotype
namespace Serde

open Rust (Attribute CutInto Piece Preamble Reads Spells)
open Translate (internal isSerialized label property record)
open TypeScript (keyName? isKeyLine)

/-! ## The nested form -/

/-- Trimming makes no text longer. -/
theorem length_trimStart_le (cs : List Char) : (Unicode.trimStart cs).length ≤ cs.length :=
  (List.dropWhile_sublist _).length_le

/-- A quoted value is shorter than what follows its opening quote, which closes it. -/
theorem length_quotedValue?_lt {cs value : List Char} (h : quotedValue? cs = some value) :
    value.length < cs.length := by
  fun_induction quotedValue? cs generalizing value with
  | case1 => cases h
  | case2 =>
    cases h
    simp
  | case3 => cases h
  | case4 => cases h
  | case5 c cs _ ih =>
    obtain ⟨more, hmore, rfl⟩ := Option.map_eq_some_iff.1 h
    have hlt := ih hmore
    simp only [List.length_cons]
    omega
  | case6 c cs _ _ _ ih =>
    obtain ⟨more, hmore, rfl⟩ := Option.map_eq_some_iff.1 h
    have hlt := ih hmore
    simp only [List.length_cons]
    omega

/-- A value is shorter than the directive it stands in. -/
theorem length_valueBehind?_lt {cs value : List Char} (h : valueBehind? cs = some value) :
    value.length < cs.length := by
  unfold valueBehind? at h
  split at h
  · rename_i rest hrest
    split at h
    · rename_i body hbody
      have hvalue := length_quotedValue?_lt h
      have hinner := length_trimStart_le rest
      have houter := length_trimStart_le cs
      rw [hbody] at hinner
      rw [hrest] at houter
      simp only [List.length_cons] at hinner houter
      omega
    · cases h
  · cases h

/-- The value that is serialized is a part of the nested form. -/
theorem length_serialized?_lt {before : Option Char} {cs value : List Char}
    (h : serialized? before cs = some value) : value.length < cs.length := by
  fun_induction serialized? before cs with
  | case1 => cases h
  | case2 before c cs here found hfound =>
    cases h
    obtain ⟨-, hvalue⟩ := Option.ite_none_right_eq_some.1
      (hfound : (if _ then valueBehind? _ else none) = some value)
    have hlt := length_valueBehind?_lt hvalue
    rw [List.length_drop] at hlt
    omega
  | case3 before c cs here hnone ih =>
    have hlt := ih h
    simp only [List.length_cons]
    omega

/-- **A value is taken as it is if and only if it does not start like the nested form.** -/
theorem effectiveValue_eq_some_iff (value : String) :
    effectiveValue value = some value ↔ isNested value.toList = false := by
  rw [effectiveValue]
  cases hnested : isNested value.toList with
  | false => exact iff_of_true (if_neg Bool.false_ne_true) rfl
  | true =>
    refine iff_of_false (fun hsome => ?_) Bool.noConfusion
    rw [if_pos rfl] at hsome
    obtain ⟨part, hpart, rfl⟩ := Option.map_eq_some_iff.1 hsome
    have hlt := length_serialized?_lt hpart
    rw [String.toList_ofList] at hlt
    exact absurd hlt (Nat.lt_irrefl _)

/-! ## Directives in a source -/

/-- The attribute with one key and a value. -/
def directive (key value : String) : Attribute := ⟨attributeName, [⟨key, some value⟩]⟩

/-- The text of a directive whose value is spelled by a literal. -/
def directiveText (key literal : String) : String := "#[serde(" ++ key ++ " = " ++ literal ++ ")]"

/-- The pieces of an attribute with one argument. -/
def attributePieces (argument : List Piece) : List Piece :=
  Piece.mark .hash :: Piece.mark .lbracket :: (Piece.path [attributeName] ++
    Piece.mark .lparen :: (argument ++ [Piece.mark .rparen, Piece.mark .rbracket]))

/-- An attribute around an argument is cut into its pieces. -/
theorem cutInto_attribute {cs : List Char} {argument : List Piece} (h : CutInto cs argument) :
    CutInto ("#[serde(".toList ++ (cs ++ ")]".toList)) (attributePieces argument) := by
  have hhash : CutInto ['#'] [Piece.mark .hash] := .mark (by decide)
  have hbracket : CutInto ['['] [Piece.mark .lbracket] := .mark (by decide)
  have hparen : CutInto ['('] [Piece.mark .lparen] := .mark (by decide)
  have hclose : CutInto [')'] [Piece.mark .rparen] := .mark (by decide)
  have hend : CutInto [']'] [Piece.mark .rbracket] := .mark (by decide)
  have hserde : Piece.isName attributeName := by decide
  exact hhash.append (hbracket.append (CutInto.name hserde (by decide)
    (hparen.append (h.append (hclose.append hend)))))

/-- A key with a literal as its value is cut into the pieces of the attribute. -/
theorem cutInto_directive {key : String} (hkey : Piece.isName key) {literal value : String}
    (hliteral : CutInto literal.toList [⟨.string, value⟩]) :
    CutInto (directiveText key literal).toList
      (attributePieces [Piece.name key, Piece.mark .eq, ⟨.string, value⟩]) := by
  have hblank : CutInto [' '] [] := .layout (List.forall_mem_singleton.2 (by decide))
  have heq : CutInto "= ".toList [Piece.mark .eq] :=
    .spelling (p := Piece.mark .eq) (Piece.legible_mark (by decide))
  have hargument := CutInto.name hkey (by decide) (hblank.append (heq.append hliteral))
  have htext : (directiveText key literal).toList = "#[serde(".toList ++
      ((key.toList ++ ([' '] ++ ("= ".toList ++ literal.toList))) ++ ")]".toList) := by
    simp [directiveText, String.toList_append]
  rw [htext]
  exact cutInto_attribute hargument

/-- An attribute with one argument is read in front of the rest of a preamble. -/
theorem reads_preamble_directive {eof : Rust.Token} {key value : String} {argument : List Piece}
    (h : Rust.ReadsArgument eof argument ⟨key, some value⟩) {qs rest : List Piece} {p : Preamble}
    (hp : Reads (Rust.preamble eof) qs p rest) :
    Reads (Rust.preamble eof) (attributePieces argument ++ qs)
      { p with attributes := directive key value :: p.attributes } rest := by
  have hlist : Reads (Rust.arguments eof)
      (argument ++ Piece.mark .rparen :: Piece.mark .rbracket :: qs) [⟨key, some value⟩]
      (Piece.mark .rbracket :: qs) :=
    @Rust.reads_argumentList eof (fun _ => argument) [⟨key, some value⟩]
      (List.forall_mem_singleton.2 h) _
  have hname : Rust.partsOf attributeName = [attributeName] := by decide
  have hbody : Reads (Rust.attributeBody eof) (Piece.path (Rust.partsOf attributeName) ++ _)
      (directive key value) qs := Rust.reads_attributeBody_of_arguments eof
    Rust.Kind.noConfusion (Rust.reads_listedArguments eof hlist)
  rw [hname] at hbody
  have hpieces : attributePieces argument ++ qs = Piece.mark .hash :: Piece.mark .lbracket ::
      (Piece.path [attributeName] ++ Piece.mark .lparen ::
        (argument ++ Piece.mark .rparen :: Piece.mark .rbracket :: qs)) := by
    simp [attributePieces]
  rw [hpieces]
  exact Rust.reads_preamble_attribute eof hbody hp

/-- **A directive is read from its text**, whatever spells its value, in front of the rest of a
preamble. -/
theorem exists_pieces_directive {key : String} (hkey : Piece.isName key) {literal v : String}
    (hliteral : Spells literal.toList v) :
    ∃ ps, CutInto (directiveText key literal).toList ps ∧
      ∀ {eof : Rust.Token} {qs rest : List Piece} {p : Preamble},
        Reads (Rust.preamble eof) qs p rest →
        Reads (Rust.preamble eof) (ps ++ qs)
          { p with attributes := directive key v :: p.attributes } rest := by
  obtain ⟨value, hcut, hvalue⟩ := hliteral.cutInto
  refine ⟨_, cutInto_directive hkey hcut, fun {eof qs rest p} hp => ?_⟩
  exact reads_preamble_directive (Rust.readsArgument_value eof key hvalue) hp

/-! ## What a directive means -/

/-- The keys that take a value. -/
def directiveKeys : List String := ["rename", "rename_all", "tag", "content"]

/-- Whether a directive is the only attribute of its name. -/
def IsDirected (attributes : List Attribute) (key value : String) : Prop :=
  attributes.filter (named attributeName) = [directive key value]

/-- A directive alone is the only attribute of its name. -/
theorem isDirected_singleton (key value : String) :
    IsDirected [directive key value] key value := by
  simp [IsDirected, directive, named]

/-- Attributes that hold one directive have its argument and no other. -/
theorem argumentsOf_of_isDirected {attributes : List Attribute} {key value : String}
    (h : IsDirected attributes key value) :
    argumentsOf attributeName attributes = [⟨key, some value⟩] := by
  rw [argumentsOf, h]
  rfl

/-- The value of a key is what is in effect of the one directive. -/
theorem value?_of_isDirected {attributes : List Attribute} {key value : String}
    (h : IsDirected attributes key value) :
    value? key (argumentsOf attributeName attributes) = effectiveValue value := by
  have hfound : argument? key [⟨key, some value⟩] = some ⟨key, some value⟩ :=
    List.find?_cons_of_pos (beq_self_eq_true key)
  rw [argumentsOf_of_isDirected h, value?, hfound]
  rfl

/-- Any other key is absent. -/
theorem argument?_of_isDirected {attributes : List Attribute} {key other value : String}
    (h : IsDirected attributes key value) (hother : key ≠ other) :
    argument? other (argumentsOf attributeName attributes) = none := by
  rw [argumentsOf_of_isDirected h, argument?]
  exact List.find?_cons_of_neg (by simpa using hother)

/-- A field that is renamed becomes a property, whose name is the value if that is taken as it
is. -/
theorem property_of_isDirected {f : Rust.Field} {value : String}
    (h : IsDirected f.preamble.attributes "rename" value) (policy : Option Casing) :
    Translate.isPlain f ∧
      (isNested value.toList = false → (property policy f).name = value) := by
  have habsent {other : String} (hother : "rename" ≠ other) :
      hasKey other (argumentsOf attributeName f.preamble.attributes) = false := by
    rw [hasKey, argument?_of_isDirected h hother]
    rfl
  refine ⟨?_, fun hplain => ?_⟩
  · rw [Translate.isPlain, Translate.factsOf, fieldFacts, fieldFactsOf]
    simp only [isSkipped, habsent (by decide : "rename" ≠ "flatten"),
      habsent (by decide : "rename" ≠ "skip"), habsent (by decide : "rename" ≠ "skip_serializing")]
    rfl
  · have hrename : (Translate.factsOf f).rename = some value :=
      (value?_of_isDirected h).trans ((effectiveValue_eq_some_iff value).2 hplain)
    rw [property]
    simp only [hrename]
    rfl

/-- An enum that is tagged is the union of its variants with this tag, if the value is taken as it
is. -/
theorem enum_of_isDirected {attributes : List Attribute} {value : String}
    (h : IsDirected attributes "tag" value) (hplain : isNested value.toList = false)
    (settings : Settings) (name : String) (generics : List String)
    (variants : List Rust.Variant) :
    Translate.enum settings (declarationFacts settings.marker attributes) name generics variants =
      .union name generics ((variants.filter isSerialized).map fun v =>
        ⟨v.preamble.docs, internal ⟨value, label none v⟩ v⟩) := by
  have htag : (declarationFacts settings.marker attributes).tag = some value :=
    (value?_of_isDirected h).trans ((effectiveValue_eq_some_iff value).2 hplain)
  have hcontent : (declarationFacts settings.marker attributes).content = none := by
    rw [declarationFacts, declarationFactsOf]
    simp only [value?, argument?_of_isDirected h (by decide : "tag" ≠ "content")]
    rfl
  have hcasing : (declarationFacts settings.marker attributes).casing = none := by
    rw [declarationFacts, declarationFactsOf]
    simp only [casing?, value?, argument?_of_isDirected h (by decide : "tag" ≠ "rename_all")]
    rfl
  have huntagged : (declarationFacts settings.marker attributes).untagged = false := by
    rw [declarationFacts, declarationFactsOf]
    simp only [hasKey, argument?_of_isDirected h (by decide : "tag" ≠ "untagged")]
    rfl
  have hmember : Translate.member (declarationFacts settings.marker attributes) =
      fun v => ⟨v.preamble.docs, internal ⟨value, label none v⟩ v⟩ := by
    funext v
    rw [Translate.member, Translate.shape]
    simp only [htag, hcontent, hcasing, huntagged, Bool.false_eq_true, if_false]
  have hunion (serialized : List Rust.Variant) :
      Translate.isEnumeration settings (declarationFacts settings.marker attributes)
        serialized = false := by
    rw [Translate.isEnumeration, htag]
    simp
  rw [Translate.enum, hunion, if_neg Bool.false_ne_true, hmember]

/-- **A directive means what it says if and only if its value does not start like the nested
form.** For every literal that spells a value, the directive is read from its text as an attribute
with the key and the value; where no other attribute of its name stands beside it, the value is
taken under the key exactly if it is not of that form. A field that is then renamed is written under
a key that denotes the value exactly if the value is no identifier with a line feed behind it, and
an enum is tagged by the value in the same way. -/
theorem directive_means {key : String} (hkey : key ∈ directiveKeys) {literal v : String}
    (hliteral : Spells literal.toList v) :
    (∃ ps, CutInto (directiveText key literal).toList ps ∧
      ∀ {eof : Rust.Token} {qs rest : List Piece} {p : Preamble},
        Reads (Rust.preamble eof) qs p rest →
        Reads (Rust.preamble eof) (ps ++ qs)
          { p with attributes := directive key v :: p.attributes } rest) ∧
    (∀ attributes, IsDirected attributes key v →
      (value? key (argumentsOf attributeName attributes) = some v ↔ isNested v.toList = false)) ∧
    (key = "rename" → isNested v.toList = false → ∀ (policy : Option Casing)
      (fields : List Rust.Field), ∀ f ∈ fields, IsDirected f.preamble.attributes key v →
        property policy f ∈ (record policy fields).properties ∧ ∀ level,
          (property policy f).render level =
            TypeScript.renderComment (TypeScript.indentation level) f.preamble.docs ++
              TypeScript.indent level ++ TypeScript.propertyKey v ++
              (if (property policy f).optional then "?" else "") ++ ": " ++
              (property policy f).type.render ++ ";\n") ∧
    (key = "tag" → isNested v.toList = false → ∀ attributes, IsDirected attributes key v →
      ∀ (settings : Settings) (name : String) (generics : List String)
        (variants : List Rust.Variant),
        Translate.enum settings (declarationFacts settings.marker attributes) name generics
          variants = .union name generics ((variants.filter isSerialized).map fun w =>
            ⟨w.preamble.docs, internal ⟨v, label none w⟩ w⟩)) ∧
    (∀ text, (⟨v, text⟩ : TypeScript.Tag).render =
      TypeScript.propertyKey v ++ ": " ++ Text.literal text) ∧
    (keyName? (TypeScript.propertyKey v).toList = some v ↔ isKeyLine v = false) := by
  have hkeys : ∀ key ∈ directiveKeys, Piece.isName key := by decide
  refine ⟨exists_pieces_directive (hkeys key hkey) hliteral, fun attributes h => ?_, ?_, ?_,
    fun _ => rfl, TypeScript.keyName?_propertyKey v⟩
  · rw [value?_of_isDirected h, effectiveValue_eq_some_iff]
  · rintro rfl hplain policy fields f hf h
    obtain ⟨hproperty, hname⟩ := property_of_isDirected h policy
    refine ⟨List.mem_map.2 ⟨f, List.mem_filter.2 ⟨hf, hproperty⟩, rfl⟩, fun level => ?_⟩
    rw [TypeScript.Property.render, hname hplain]
    rfl
  · rintro rfl hplain attributes h settings name generics variants
    exact enum_of_isDirected h hplain settings name generics variants

/-- The name `serialize` is taken for the nested form, which it only starts like. -/
theorem directive_means_serialize :
    "rename" ∈ directiveKeys ∧ Spells "\"serialize\"".toList "serialize" ∧
      Spells "r\"kind\"".toList "kind" ∧
      value? "rename" (argumentsOf attributeName [directive "rename" "serialize"]) ≠
        some "serialize" ∧
      value? "rename" (argumentsOf attributeName [directive "rename" "kind"]) = some "kind" := by
  have hkey : "rename" ∈ directiveKeys := by decide
  have hserialize : Spells "\"serialize\"".toList "serialize" :=
    @Spells.ordinary _ "serialize" (Rust.escaped_self (by simp))
  have hkind : Spells "r\"kind\"".toList "kind" := @Spells.raw 0 "kind" (by decide)
  have hnested : isNested "serialize".toList = true := by decide
  refine ⟨hkey, hserialize, hkind, fun hsome => ?_, ?_⟩
  · have hplain := ((directive_means hkey hserialize).2.1 _ (isDirected_singleton _ _)).1 hsome
    rw [hnested] at hplain
    cases hplain
  · exact ((directive_means hkey hkind).2.1 _ (isDirected_singleton _ _)).2 (by decide)

end Serde
end Ferrotype

/-
# String constants

A constant of type `&str` is written with the string it was given, however the literal in the
source spells it. `translate_stringConst` follows the string from the characters of the source to
those of the output: the literal is cut into one token, the token stands for the string, and what
is written for the string is a JSON string that is read as the string again.
-/

import Ferrotype.Proofs.Json.Literal
import Ferrotype.Proofs.Rust.Plain.Visibility
import Ferrotype.Proofs.Rust.Spelling
import Ferrotype.Proofs.Translate.Block
import Ferrotype.Proofs.Translate.Constant

namespace Ferrotype

open Rust (CutInto Piece PlainExpr PlainType Preamble Spells Visibility)

namespace Rust

open Piece (mark)

/-! ## Constants in a source -/

/-- A constant is an item behind its keyword. -/
theorem readsItem_const {eof : Token} {p : Preamble} {name : String} {ps rest : List Piece}
    {item : Item} (h : Reads (parseConst eof p) (Piece.name name :: ps) item rest) :
    ReadsItem eof p (mark .const :: Piece.name name :: ps) item rest := by
  intro us hus
  obtain ⟨u, us, rfl, hkind, hus⟩ := exists_mark_of_piecesOf hus
  obtain ⟨r, hr, hvalue, hleft⟩ := h us hus
  have hname : headKind us = .identifier := headKind_of_piecesOf hus
  refine ⟨u, us, r, rfl, kind_ne_of_eq hkind Kind.noConfusion,
    kind_ne_of_eq hkind Kind.noConfusion, ?_, hvalue, hleft⟩
  rw [parseItem, if_neg (kind_ne_of_eq hkind Kind.noConfusion),
    if_neg (kind_ne_of_eq hkind Kind.noConfusion), if_pos ⟨hkind, hname⟩, hr]
  rfl

/-- **A source that is cut into a constant** has this constant as its only item. -/
theorem parse_const {p : Preamble} (hp : p.isWritable) {v : Visibility} (hv : v.isWritable)
    {name : String} {ps : List Piece} {item : Item}
    (hread : ∀ eof, Reads (parseConst eof p) (Piece.name name :: ps) item []) {source : String}
    (hsource : CutInto source.toList
      (p.pieces ++ (v.pieces ++ (mark .const :: Piece.name name :: ps)))) :
    parse source = .ok [item] := by
  have hdoc : Piece.headKind (v.pieces ++ (mark .const :: Piece.name name :: ps)) ≠ .doc :=
    headKind_visibility v Kind.noConfusion Kind.noConfusion
  have hhash : Piece.headKind (v.pieces ++ (mark .const :: Piece.name name :: ps)) ≠ .hash :=
    headKind_visibility v Kind.noConfusion Kind.noConfusion
  refine parseItems_of_reads hv (p.not_opensInner hhash)
    (reads_preamble _ hdoc hhash hp) (readsItem_const (hread _)) (fun ts hts => ?_)
    hsource.piecesOf_tokenize
  rw [List.map_eq_nil_iff.1 hts, parseItems]

/-- **A source that is cut into a plain constant** has this constant as its only item. -/
theorem parse_plainConst {p : Preamble} (hp : p.isWritable) {v : Visibility} (hv : v.isWritable)
    (name : String) {t : PlainType} {e : PlainExpr} (ht : t.isWritable) (he : e.isWritable)
    {source : String} (hsource : CutInto source.toList
      (p.pieces ++ (v.pieces ++ (mark .const :: plainConstPieces name t e)))) :
    parse source = .ok [plainConst p name t e] := by
  refine parse_const hp hv (fun eof => ?_) hsource
  have hread := reads_plainConst eof p name ht he []
  rwa [List.append_nil] at hread

/-- The constant of a name with the text of its type and of its value. -/
def typedConst (name type value : String) : String :=
  "const " ++ name ++ ": " ++ type ++ " = " ++ value ++ ";"

/-- A constant with a type and a value is cut into their pieces. -/
theorem cutInto_typedConst {name : String} (hname : Piece.isName name) {type : String}
    {tps : List Piece} (htype : CutInto (type.toList ++ [' ']) tps) {value : String}
    {vps : List Piece} (hvalue : CutInto (value.toList ++ [';']) (vps ++ [mark .semicolon])) :
    CutInto (typedConst name type value).toList (mark .const :: Piece.name name :: mark .colon ::
      (tps ++ mark .eq :: (vps ++ [mark .semicolon]))) := by
  have hconst : CutInto "const ".toList [mark .const] :=
    .spelling (p := mark .const) (Piece.legible_mark (by decide))
  have hcolon : CutInto ": ".toList [mark .colon] :=
    .spelling (p := mark .colon) (Piece.legible_mark (by decide))
  have heq : CutInto "= ".toList [mark .eq] :=
    .spelling (p := mark .eq) (Piece.legible_mark (by decide))
  have htail := hcolon.append (htype.append (heq.append hvalue))
  have hall := hconst.append (CutInto.name hname (by decide) htail)
  have htext : (typedConst name type value).toList = "const ".toList ++ (name.toList ++
      (": ".toList ++ (type.toList ++ [' '] ++ ("= ".toList ++ (value.toList ++ [';']))))) := by
    simp [typedConst, String.toList_append]
  rw [htext]
  exact hall

/-! ## String constants in a source -/

/-- The type `&str`. -/
def stringType : PlainType := .reference none false (.scalar "str")

/-- The constant of a name whose value is spelled by a literal, without its preamble. -/
def stringConst (name literal : String) : String :=
  "const " ++ name ++ ": &str = " ++ literal ++ ";"

/-- A constant is cut into its pieces, with the token of the literal as its value. -/
theorem cutInto_stringConst {name : String} (hname : Piece.isName name) {literal value : String}
    (hliteral : CutInto literal.toList [⟨.string, value⟩]) :
    CutInto (stringConst name literal).toList
      (mark .const :: plainConstPieces name stringType (.string false value)) := by
  have hreference : CutInto "&".toList [⟨.ampersand, "&"⟩] := .mark (by decide)
  have hstr : CutInto "str ".toList [Piece.name "str"] :=
    .spelling (p := Piece.name "str") (Piece.legible_name (by decide))
  have hsemicolon : CutInto ";".toList [mark .semicolon] := .mark (by decide)
  have htype : CutInto ("&str".toList ++ [' ']) stringType.pieces := hreference.append hstr
  have htext : stringConst name literal = typedConst name "&str" literal := by
    simp [stringConst, typedConst, ← String.toList_inj]
  rw [htext]
  exact cutInto_typedConst hname htype (hliteral.append hsemicolon)

end Rust

namespace Translate

/-- **A string constant keeps its string**, in an output that is not ambient: behind its preamble,
which marks it for export, and its visibility, a constant of type `&str` is written with a JSON
string for the string which the literal spells, and nothing is reported. -/
theorem translate_stringConst {settings : Settings} (hambient : settings.ambient = false)
    {p : Preamble} (hp : p.isWritable)
    (hexported : Serde.hasAttribute settings.marker p.attributes) {v : Visibility}
    (hv : v.isWritable) {front : String} (hfront : CutInto front.toList (p.pieces ++ v.pieces))
    {name : String} (hname : Piece.isName name) {literal s : String}
    (hliteral : Spells literal.toList s) :
    ∃ items json,
      Rust.parse (front ++ Rust.stringConst name literal) = .ok items ∧
      (translate settings items).text = marker ++ "\n" ++ ("\n" ++
        TypeScript.renderComment 0 p.docs ++
          ("export const " ++ name ++ ": string = " ++ json ++ ";\n")) ∧
      (translate settings items).unprocessed = [] ∧ (translate settings items).findings = [] ∧
      Json.read json.toList = .ok (.string s) := by
  obtain ⟨value, hcut, hvalue⟩ := hliteral.cutInto
  have hdenoted : Rust.denoted value = s := by rw [Rust.denoted, hvalue]; rfl
  have hwritable : (PlainExpr.string false value).isWritable := by
    rw [PlainExpr.isWritable, hvalue]
    rfl
  have hsource : CutInto (front ++ Rust.stringConst name literal).toList
      (p.pieces ++ (v.pieces ++ (Piece.mark .const ::
        Rust.plainConstPieces name Rust.stringType (.string false value)))) := by
    rw [String.toList_append, ← List.append_assoc]
    exact hfront.append (Rust.cutInto_stringConst hname hcut)
  have hparse := Rust.parse_plainConst hp hv name (by decide) hwritable hsource
  have hread : value? (PlainExpr.string false value).read = some (.string s) := by
    rw [PlainExpr.read, hdenoted]
    rfl
  have htype : (type Rust.stringType.sorted).render = "string" := by decide
  have htext := text_plainConst hambient hexported name (t := Rust.stringType) hread
  have hblock := ofItem_plainConst hambient hexported name (t := Rust.stringType) hread
  refine ⟨_, Text.literal s, hparse, ?_, ?_, ?_, Json.read_literal s⟩
  · have hjoined (head : String) :
        head ++ ": " ++ "string" ++ " = " = head ++ ": string = " := by
      rw [String.append_assoc, String.append_assoc]
      rfl
    rw [text_translate, List.map_singleton, htext, Text.concat_cons, Text.concat_nil,
      String.append_empty, htype, hjoined]
    rfl
  · rw [unprocessed_translate, List.flatMap_singleton, hblock]
    rfl
  · have hforeigns : (type Rust.stringType.sorted).foreigns = [] := by decide
    rw [findings_translate, List.flatMap_singleton, hblock]
    exact congrArg (unmapped name) hforeigns

/-- The text in front of a constant that everyone can see and that is exported. -/
def exportFront : String := "#[tsync]\npub "

/-- A literal with an escape of each kind, over two lines. -/
def escapedLiteral : String := "\"Caf\\u\x7b00_E9\x7d\\x21\\t\\\n  \\\"\""

/-- A raw literal whose text holds what closes one with fewer hashes. -/
def hashedLiteral : String := "r##\"a\\\"#b\"##"

/-- The literal with escapes spells its text. -/
theorem spells_escapedLiteral : Spells escapedLiteral.toList "Caf\u00e9!\t\"" := by
  have hdigits : ∀ d ∈ ['0', '0', '_', 'E', '9'], Text.Hexadecimal.isDigit d ∨ d = '_' := by
    simp [Text.Hexadecimal.isDigit, Text.Hexadecimal.value?]
  have hascii : ∀ d ∈ ['2', '1'], Text.Hexadecimal.isDigit d := by
    simp [Text.Hexadecimal.isDigit, Text.Hexadecimal.value?]
  have hlayout : ∀ c ∈ [' ', ' '], Rust.Escape.isLayout c := by simp [Rust.Escape.isLayout]
  have hnext : ∀ c ∈ ['\\', '"'].head?, Rust.Escape.isLayout c = false := by
    simp [Rust.Escape.isLayout]
  have hbody : Rust.Escaped "Caf\\u\x7b00_E9\x7d\\x21\\t\\\n  \\\"".toList
      "Caf\u00e9!\t\"".toList :=
    .plain (by decide) (by decide) <| .plain (by decide) (by decide) <|
      .plain (by decide) (by decide) <|
      @Rust.Escaped.codePoint ['0', '0', '_', 'E', '9'] _ _ _ hdigits (by decide) (by decide) <|
      .ascii hascii (by decide) (by decide) <| .letter (by decide) <|
      @Rust.Escaped.nextLine [' ', ' '] _ _ hlayout hnext <| .letter (by decide) .nil
  exact Spells.ordinary hbody

/-- The raw literal spells its text. -/
theorem spells_hashedLiteral : Spells hashedLiteral.toList "a\\\"#b" :=
  @Spells.raw 2 "a\\\"#b" (by decide)

/-- The attributes and the visibility in front of the constant are cut into their pieces. -/
theorem cutInto_exportFront :
    CutInto exportFront.toList (exportPreamble.pieces ++ Visibility.everywhere.pieces) := by
  have hword : Piece.isWord "pub".toList := by decide
  have hpub : Piece.Legible ⟨.pub, "pub"⟩ := Piece.legible_of_isWord hword
  have hline : CutInto ['\n'] [] := .layout (List.forall_mem_singleton.2 (by decide))
  have hclosing : CutInto "]\npub ".toList [Piece.mark .rbracket, ⟨.pub, "pub"⟩] :=
    (CutInto.mark (c := ']') (by decide)).append <|
      hline.append (CutInto.spelling hpub)
  have hname : CutInto ("tsync".toList ++ "]\npub ".toList)
      [Piece.name "tsync", Piece.mark .rbracket, ⟨.pub, "pub"⟩] :=
    CutInto.name (by decide) (d := ']') (by decide) hclosing
  exact (CutInto.mark (c := '#') (by decide)).append <|
    (CutInto.mark (c := '[') (by decide)).append hname

/-- Both literals keep their strings. -/
theorem translate_stringConst_escapes :
    Spells escapedLiteral.toList "Caf\u00e9!\t\"" ∧ Spells hashedLiteral.toList "a\\\"#b" ∧
      CutInto exportFront.toList (exportPreamble.pieces ++ Visibility.everywhere.pieces) ∧
      (∃ items json,
        Rust.parse (exportFront ++ Rust.stringConst "GREETING" escapedLiteral) = .ok items ∧
        (translate .default items).text = marker ++ "\n" ++ ("\n" ++
          TypeScript.renderComment 0 [] ++
            ("export const " ++ "GREETING" ++ ": string = " ++ json ++ ";\n")) ∧
        (translate .default items).unprocessed = [] ∧ (translate .default items).findings = [] ∧
        Json.read json.toList = .ok (.string "Caf\u00e9!\t\"")) ∧
      ∃ items json,
        Rust.parse (exportFront ++ Rust.stringConst "r" hashedLiteral) = .ok items ∧
        (translate .default items).text = marker ++ "\n" ++ ("\n" ++
          TypeScript.renderComment 0 [] ++
            ("export const " ++ "r" ++ ": string = " ++ json ++ ";\n")) ∧
        (translate .default items).unprocessed = [] ∧ (translate .default items).findings = [] ∧
        Json.read json.toList = .ok (.string "a\\\"#b") := by
  have hexported : Serde.hasAttribute (Settings.default).marker exportPreamble.attributes := by
    decide
  exact ⟨spells_escapedLiteral, spells_hashedLiteral, cutInto_exportFront,
    translate_stringConst rfl (by decide) hexported (by decide) cutInto_exportFront (by decide)
      spells_escapedLiteral,
    translate_stringConst rfl (by decide) hexported (by decide) cutInto_exportFront (by decide)
      spells_hashedLiteral⟩

end Translate
end Ferrotype

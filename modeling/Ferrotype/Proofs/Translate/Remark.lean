/-
# Remarks and translations

What a source is translated to depends on the kinds and the texts of its tokens, not on their
positions. So a remark, which changes positions only, changes no translation
(`translate_insert_remark`).
-/

import Ferrotype.Proofs.Rust.Parse.Continue.Item
import Ferrotype.Proofs.Rust.Tokenize.Remark
import Ferrotype.Translate.Item

namespace Ferrotype

open Rust

/-- Sources with the same tokens, up to positions, have the same items. -/
theorem toOption_parse_of_pieces {source source' : String}
    (h : (tokenize source').tokens.map Token.piece = (tokenize source).tokens.map Token.piece) :
    (parse source').toOption = (parse source).toOption := by
  have hread : ∀ {source source' items},
      (tokenize source').tokens.map Token.piece = (tokenize source).tokens.map Token.piece →
      parse source = .ok items → parse source' = .ok items := fun hpieces hitems => by
    rw [parse, parseItems_continues _ (.of_pieces hpieces) hitems, parseItems]
    exact congrArg Except.ok (List.append_nil _)
  cases hitems : parse source with
  | ok items => rw [hread h hitems]
  | error e =>
    cases hitems' : parse source' with
    | ok items => cases (hread h.symm hitems').symm.trans hitems
    | error e' => rfl

/-- **Remarks change no translation**, wherever they are put in before a lexeme that is neither
layout nor an ordinary comment. There is one place where they do change the tokens: behind two
quotes that are a lexeme of their own. -/
theorem translate_insert_remark {source : String} {before after : List Lexeme} {lexeme : Lexeme}
    (h : lexemes source.toList = before ++ lexeme :: after) (hshape : lexeme.shape ≠ .blank)
    {remark : List Char} (hremark : Remark remark) :
    let source' := String.ofList
      (before.flatMap (·.text) ++ remark ++ (lexeme :: after).flatMap (·.text))
    ((tokenize source').tokens.map Token.piece = (tokenize source).tokens.map Token.piece ↔
      ∀ last ∈ before.getLast?, last.text ≠ ['\'', '\'']) ∧
    ((∀ last ∈ before.getLast?, last.text ≠ ['\'', '\'']) →
      (parse source').toOption = (parse source).toOption ∧
      ∀ settings, (parse source').toOption.map (translate settings) =
        (parse source).toOption.map (translate settings)) := by
  intro source'
  have hiff : (tokenize source').tokens.map Token.piece =
      (tokenize source).tokens.map Token.piece ↔
      ∀ last ∈ before.getLast?, last.text ≠ ['\'', '\''] := by
    rw [tokenize, tokenize, TokenStream.pieces_ofLexemes, TokenStream.pieces_ofLexemes,
      String.toList_ofList]
    exact pieces_insert_iff h hshape hremark
  refine ⟨hiff, fun hlast => ?_⟩
  have hitems := toOption_parse_of_pieces (hiff.2 hlast)
  exact ⟨hitems, fun settings => congrArg (Option.map (translate settings)) hitems⟩

/-- Three quotes are an empty character literal and a lifetime. With a comment before the last one
they are three lifetimes. -/
theorem tokenize_three_quotes_remark :
    let literal : Lexeme := .whole (.token .char ['\'', '\'']) ['\'', '\'']
    let lifetime : Lexeme := .whole (.token .lifetime ['\'']) ['\'']
    let remark := " /* c */ ".toList
    lexemes "'''".toList = [literal] ++ lifetime :: [] ∧ lifetime.shape ≠ .blank ∧ Remark remark ∧
      (tokenize (String.ofList (['\'', '\''] ++ remark ++ ['\'']))).tokens.map Token.piece ≠
        (tokenize "'''").tokens.map Token.piece := by
  intro literal lifetime remark
  have hlexemes : lexemes "'''".toList = [literal] ++ lifetime :: [] := by decide +kernel
  have hshape : lifetime.shape ≠ .blank := Shape.noConfusion
  have hremark : Remark remark :=
    @Remark.block ['c'] (by decide) (by decide)
  refine ⟨hlexemes, hshape, hremark, fun htokens => ?_⟩
  exact (translate_insert_remark hlexemes hshape hremark).1.1 htokens literal rfl rfl

end Ferrotype

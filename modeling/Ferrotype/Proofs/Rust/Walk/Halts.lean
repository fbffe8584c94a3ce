/-
# The front end comes to an end

Lexer and parser halt on every source in which each `\u` escape that opens a brace in the text of a
token also closes it there (`frontEnd_halts`). The lexer takes every character once. The parser, its
part for a type, an expression, the attributes before an item or generic parameters, begun anywhere
in the tokens, gives its value or its error. No loop of theirs goes round, and no nested call
begins, without a step forward since the last turn, and the parser goes back only to run over a
list or an initializer as raw text.
-/

import Ferrotype.Proofs.Rust.Walk.Item
import Ferrotype.Proofs.Rust.Walk.Lexeme

namespace Ferrotype
namespace Rust

open Cursor

namespace Walk

/-- The walk over a source that gives its tokens. -/
def stream : CharCursor TokenStream := do
  let lexemes ← walkLexemes ()
  pure (TokenStream.ofLexemes Position.start lexemes)

/-- The cursor of the lexer runs straight over a source and gives its tokens. -/
theorem stream_apply (source : String) :
    stream source.toList = ⟨.ok (tokenize source), [], source.toList.map .on⟩ := by
  have hpasses : Passes stream source.toList (tokenize source) [] :=
    (passes_walkLexemes source.toList).bind (passes_pure _ [])
  obtain ⟨passed, heq, hrun⟩ := hpasses
  rw [List.append_nil] at heq
  rw [hrun, heq]

end Walk

/-- From position `p` of the tokens a cursor comes to an end: it gives the value or meets the error
that is said and is never idle, it goes back only over what is then raw text, and it does not pass
the end of the tokens. -/
structure Halts {α : Type} (m : TokenCursor α) (tokens : List Token) (p : Nat) (x : Result α) :
    Prop where
  outcome : (m (tokens.drop p)).outcome = x.mapError .raised
  travels : Travels (tokens.drop p) (m (tokens.drop p)).moves (m (tokens.drop p)).left
  position_le : ∀ q ∈ Move.positions p (m (tokens.drop p)).moves, q ≤ tokens.length

/-- A cursor that follows a parser halts if no escape keeps it from that. -/
theorem Follows.halts {α ρ : Type} [Reading ρ α] {eof : Token} {tokens : List Token} {p : Nat}
    {m : TokenCursor α} {x : Result ρ} (h : Follows eof m (tokens.drop p) x)
    (hclosed : ∀ t ∈ eof :: tokens, ClosesEscapes t.text.toList) (hp : p ≤ tokens.length) :
    Halts m tokens p (x.map Reading.value) := by
  have hlength : p + (tokens.drop p).length = tokens.length := by
    rw [List.length_drop]
    omega
  cases x with
  | ok r =>
    obtain ⟨moves, hrun, htravels⟩ := h
    refine ⟨by rw [hrun]; rfl, by rw [hrun]; exact htravels, fun q hq => ?_⟩
    rw [hrun] at hq
    exact hlength ▸ htravels.position_le hq
  | error e =>
    have hne : e ≠ .escape .endless := fun heq => by
      obtain ⟨t, hmem, hopen⟩ := h.endless heq
      refine hopen (hclosed t ?_)
      rcases List.mem_cons.1 hmem with rfl | hmem
      · exact List.mem_cons_self
      · exact List.mem_cons_of_mem _ (List.mem_of_mem_drop hmem)
    obtain ⟨us, moves, hrun, htravels⟩ := h.stops
    rw [stopOf_of_ne hne] at hrun
    refine ⟨by rw [hrun]; rfl, by rw [hrun]; exact htravels, fun q hq => ?_⟩
    rw [hrun] at hq
    exact hlength ▸ htravels.position_le hq

/-- **Lexer and parser halt** on every source whose tokens close their escapes, and so do the parts
of the parser wherever they begin. -/
theorem frontEnd_halts (source : String)
    (h : ∀ t ∈ (tokenize source).tokens, ClosesEscapes t.text.toList) :
    let tokens := (tokenize source).tokens
    let eof := (tokenize source).eof
    Walk.stream source.toList = ⟨.ok (tokenize source), [], source.toList.map .on⟩ ∧
    Halts (Walk.items eof ()) tokens 0 (parse source) ∧
    ∀ p ≤ tokens.length,
      Halts (Walk.type eof ()) tokens p ((parseType eof (tokens.drop p)).map (·.value)) ∧
      Halts (Walk.expr eof ()) tokens p ((parseExpr eof (tokens.drop p)).map (·.value)) ∧
      Halts (Walk.preamble eof ()) tokens p ((preamble eof (tokens.drop p)).map (·.value)) ∧
      Halts (Walk.generics eof) tokens p ((generics eof (tokens.drop p)).map (·.value)) := by
  intro tokens eof
  have hclosed : ∀ t ∈ eof :: tokens, ClosesEscapes t.text.toList := by
    intro t ht
    rcases List.mem_cons.1 ht with rfl | ht
    · have hempty : eof.text.toList = [] := rfl
      rw [hempty]
      decide
    · exact h t ht
  refine ⟨Walk.stream_apply source, ?_, fun p hp => ⟨?_, ?_, ?_, ?_⟩⟩
  · have hfollows : Follows eof (Walk.items eof ()) (tokens.drop 0)
        ((parseItems eof tokens).map fun items => (items, ([] : List Token))) :=
      Walk.follows_items tokens
    have hitems := hfollows.halts hclosed (Nat.zero_le _)
    have hparse : ((parseItems eof tokens).map fun items => (items, ([] : List Token))).map
        Reading.value = parse source := by
      rw [parse]
      cases parseItems eof tokens <;> rfl
    exact hparse ▸ hitems
  · exact (Walk.follows_type _).halts hclosed hp
  · exact (Walk.follows_expr _).halts hclosed hp
  · exact (Walk.follows_preamble _).halts hclosed hp
  · exact (Walk.follows_generics _).halts hclosed hp

/-- The list is left behind its first element and then read again as raw text. -/
theorem frontEnd_halts_failedList :
    let source := "const A: [bool; 2] = [true '\\u\x7b41\x7d'];"
    let tokens := (tokenize source).tokens
    let eof := (tokenize source).eof
    (∀ t ∈ tokens, ClosesEscapes t.text.toList) ∧ 9 ≤ tokens.length ∧
      Walk.stream source.toList = ⟨.ok (tokenize source), [], source.toList.map .on⟩ ∧
      Halts (Walk.items eof ()) tokens 0 (parse source) ∧
      Halts (Walk.expr eof ()) tokens 9 (.ok (.raw "[true '\\u\x7b41\x7d']")) := by
  intro source tokens eof
  have hclosed : ∀ t ∈ tokens, ClosesEscapes t.text.toList := by decide +kernel
  have hlength : 9 ≤ tokens.length := by decide +kernel
  have hlist : tokens.drop 9 =
      [⟨.lbracket, "[", ⟨1, 22⟩⟩, ⟨.trueWord, "true", ⟨1, 23⟩⟩,
       ⟨.char, "'\\u\x7b41\x7d'", ⟨1, 28⟩⟩, ⟨.rbracket, "]", ⟨1, 36⟩⟩,
       ⟨.semicolon, ";", ⟨1, 37⟩⟩] := by
    decide +kernel
  have hraw : (parseExpr eof (tokens.drop 9)).map (·.value) =
      .ok (.raw "[true '\\u\x7b41\x7d']") := by
    rw [hlist]
    simp only [Except.map, bind, Except.bind, parseExpr, parseList, literalKind?, literalExpr,
      Parsed.rest_later, Parsed.rest_past, rawExpr, reduceCtorEq, ↓reduceIte]
    rfl
  obtain ⟨hlexer, hparser, hparts⟩ := frontEnd_halts source hclosed
  exact ⟨hclosed, hlength, hlexer, hparser, hraw ▸ (hparts 9 hlength).2.1⟩

end Rust
end Ferrotype

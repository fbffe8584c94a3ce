/-
# Spelling attributes

In canonical form an attribute has its arguments in parentheses, if it has any; an argument is a
key, or a key with a string behind an equals sign.

`reads_attributeBody` says that an attribute is read back behind its first bracket.
-/

import Ferrotype.Proofs.Rust.Canonical.Literal
import Ferrotype.Proofs.Rust.Canonical.Path

namespace Ferrotype
namespace Rust

open Piece (mark isName)

/-! ## Spelling -/

/-- The pieces of an argument of an attribute. -/
def Argument.pieces (a : Argument) : List Piece :=
  match a.value with
  | none => [Piece.name a.key]
  | some value => [Piece.name a.key, mark .eq, Piece.string value]

namespace Attribute

/-- The pieces of the arguments of an attribute with their parentheses. -/
def argsPieces (args : List Argument) : List Piece :=
  if args.isEmpty then []
  else mark .lparen :: (Piece.separated Argument.pieces args ++ [mark .rparen])

/-- The pieces of an attribute. -/
def pieces (a : Attribute) : List Piece :=
  mark .hash :: mark .lbracket ::
    (Piece.path (partsOf a.name) ++ (argsPieces a.args ++ [mark .rbracket]))

/-- Whether an attribute has a canonical form: its name is a path of names, and its keys are
names. -/
def isWritable (a : Attribute) : Bool :=
  (partsOf a.name).all isName && a.args.all fun arg => isName arg.key

end Attribute

/-! ## Reading attributes -/

section Reading

variable (eof : Token)

/-- Nothing is dropped in front of a closing bracket. -/
theorem dropToBracket_of_headKind {ts : List Token} (h : headKind ts = .rbracket) :
    dropToBracket ts = ts := by
  cases ts with
  | nil => cases h
  | cons t ts =>
    rw [headKind_cons] at h
    rw [dropToBracket, if_pos h]

/-- A path with neither a value nor arguments behind it is a key. -/
theorem argumentAfter_key {parts : List String} (hparts : parts ≠ []) {ts : List Token}
    (heq : headKind ts ≠ .eq) (hparen : headKind ts ≠ .lparen) :
    argumentAfter eof parts ts = .ok (⟨pathText parts, none⟩, ts) := by
  cases ts with
  | nil => rfl
  | cons t ts =>
    rw [headKind_cons] at heq hparen
    rw [argumentAfter, if_neg heq, if_neg hparen, if_neg hparts]

/-- A path with an equals sign and a literal behind it is a key with a value. -/
theorem argumentAfter_value (parts : List String) {t u : Token} {ts : List Token} {value : String}
    (ht : t.kind = .eq) (hu : u.kind = .string) (hvalue : literalText u = .ok value) :
    argumentAfter eof parts (t :: u :: ts) = .ok (⟨pathText parts, some value⟩, ts) := by
  have hread : argumentValue eof (u :: ts) = .ok value := by
    rw [argumentValue]
    exact (if_pos hu).trans hvalue
  rw [argumentAfter, if_pos ht, hread]
  rfl

/-- What starts with no literal is read as a path and what stands behind it. -/
theorem argument_of_argumentAfter {t : Token} {ts : List Token} {r : Argument × List Token}
    (hkind : t.kind ≠ .string)
    (h : argumentAfter eof (path (t :: ts)).1 (path (t :: ts)).2 = .ok r) :
    ∃ p, argument eof t ts = .ok p ∧ p.value = r.1 ∧ p.rest = r.2 := by
  rw [argument, if_neg hkind]
  split
  · rename_i e heq
    cases h.symm.trans heq
  · rename_i s heq
    cases h.symm.trans heq
    exact ⟨_, rfl, rfl, rfl⟩

/-- Whether an argument is read from pieces, up to the comma or the parenthesis behind it. -/
def ReadsArgument (ps : List Piece) (a : Argument) : Prop :=
  ∀ (ts : List Token) (rest : List Piece), piecesOf ts = ps ++ rest →
    Piece.headKind rest = .comma ∨ Piece.headKind rest = .rparen →
    ∃ t us p, ts = t :: us ∧ t.kind = .identifier ∧ argument eof t us = .ok p ∧ p.value = a ∧
      piecesOf p.rest = rest

/-- A name is read as a key. -/
theorem readsArgument_key (key : String) : ReadsArgument eof [Piece.name key] ⟨key, none⟩ := by
  intro ts rest hts hrest
  have hparts : [key] ≠ [] := List.cons_ne_nil _ _
  have hnot (kind : Kind) (h₁ : .comma ≠ kind) (h₂ : .rparen ≠ kind) :
      Piece.headKind rest ≠ kind := by
    rcases hrest with hrest | hrest
    · rwa [hrest]
    · rwa [hrest]
  obtain ⟨t, us, rfl, hkind, -, -⟩ := exists_cons_of_piecesOf hts
  obtain ⟨hpath, hleft⟩ := path_of_piecesOf hparts hts (hnot _ Kind.noConfusion Kind.noConfusion)
  have hafter := argumentAfter_key eof hparts
    (headKind_of_piecesOf hleft ▸ hnot _ Kind.noConfusion Kind.noConfusion)
    (headKind_of_piecesOf hleft ▸ hnot _ Kind.noConfusion Kind.noConfusion)
  rw [← hpath] at hafter
  obtain ⟨p, hp, hvalue, hend⟩ :=
    argument_of_argumentAfter eof (kind_ne_of_eq hkind Kind.noConfusion) hafter
  refine ⟨t, us, p, rfl, hkind, hp, ?_, ?_⟩
  · rw [hvalue, hpath]
    rfl
  · rw [hend, hleft]

/-- Whatever literal spells it, the value of an argument is the text that the literal stands
for. -/
theorem readsArgument_value (key : String) {text value : String} (h : unquote text = .ok value) :
    ReadsArgument eof [Piece.name key, mark .eq, ⟨.string, text⟩] ⟨key, some value⟩ := by
  intro ts rest hts _
  have hparts : [key] ≠ [] := List.cons_ne_nil _ _
  obtain ⟨t, us, rfl, hkind, -, -⟩ := exists_cons_of_piecesOf hts
  obtain ⟨hpath, hleft⟩ := path_of_piecesOf hparts hts Kind.noConfusion
  obtain ⟨u, vs, hpathRest, hu, hvs⟩ := exists_mark_of_piecesOf hleft
  obtain ⟨w, ws, rfl, hw, htext, hws⟩ := exists_cons_of_piecesOf hvs
  have hliteral : literalText w = .ok value := by
    rw [literalText, htext, h]
    rfl
  have hafter : argumentAfter eof [key] (u :: w :: ws) =
      .ok (⟨pathText [key], some value⟩, ws) := argumentAfter_value eof [key] hu hw hliteral
  rw [← hpathRest, ← hpath] at hafter
  obtain ⟨p, hp, hvalue, hend⟩ :=
    argument_of_argumentAfter eof (kind_ne_of_eq hkind Kind.noConfusion) hafter
  refine ⟨t, us, p, rfl, hkind, hp, ?_, ?_⟩
  · rw [hvalue, hpath]
    rfl
  · rw [hend, hws]
    rfl

/-- Arguments are read back. -/
theorem readsArgument_pieces (a : Argument) : ReadsArgument eof a.pieces a := by
  obtain ⟨key, value⟩ := a
  cases value with
  | none => exact readsArgument_key eof key
  | some value => exact readsArgument_value eof key (unquote_quoted (.inl rfl) value)

/-- Lists of arguments are read back if their members are. The induction is on the list. -/
theorem reads_argumentList {write : Argument → List Piece} {args : List Argument}
    (h : ∀ a ∈ args, ReadsArgument eof (write a) a) (rest : List Piece) :
    Reads (arguments eof) (Piece.separated write args ++ mark .rparen :: rest) args rest := by
  have hnil (rest : List Piece) : Reads (arguments eof) (mark .rparen :: rest) [] rest := by
    intro ts hts
    obtain ⟨t, us, rfl, hkind, hus⟩ := exists_mark_of_piecesOf hts
    rw [arguments, if_pos hkind]
    exact ⟨_, rfl, rfl, hus⟩
  induction args using Piece.separated.induct with
  | case1 => exact hnil rest
  | case2 a =>
    intro ts hts
    obtain ⟨t, us, p, rfl, hkind, hp, hvalue, hleft⟩ := h a List.mem_cons_self _ _ hts (.inr rfl)
    have hdrop : dropIf .comma p.rest = p.rest := by
      refine dropIf_of_headKind ?_
      rw [headKind_of_piecesOf hleft]
      exact Kind.noConfusion
    obtain ⟨more, hmore, hnone, hend⟩ := hnil rest (dropIf .comma p.rest) (by rw [hdrop, hleft])
    rw [arguments, if_neg (kind_ne_of_eq hkind Kind.noConfusion), hp]
    simp only [bind, Except.bind, hmore]
    refine ⟨_, rfl, ?_, hend⟩
    rw [Parsed.value_widen, Parsed.value_later, Parsed.value_map, hvalue, hnone]
  | case3 a b more ih =>
    intro ts hts
    obtain ⟨ha, hmore⟩ := List.forall_mem_cons.1 h
    rw [Piece.separated, List.append_assoc, List.cons_append] at hts
    obtain ⟨t, us, p, rfl, hkind, hp, hvalue, hleft⟩ := ha _ _ hts (.inl rfl)
    obtain ⟨u, vs, hrest, hu, hvs⟩ := exists_mark_of_piecesOf hleft
    have hdrop : dropIf .comma p.rest = vs := by rw [hrest, dropIf, if_pos hu]
    obtain ⟨more, hmore, hnone, hend⟩ := ih hmore (dropIf .comma p.rest) (by rw [hdrop, hvs])
    rw [arguments, if_neg (kind_ne_of_eq hkind Kind.noConfusion), hp]
    simp only [bind, Except.bind, hmore]
    refine ⟨_, rfl, ?_, hend⟩
    rw [Parsed.value_widen, Parsed.value_later, Parsed.value_map, hvalue, hnone]

/-- Arguments in parentheses are those of an attribute. -/
theorem reads_listedArguments {ps rest : List Piece} {args : List Argument}
    (h : Reads (arguments eof) ps args rest) :
    Reads (attributeArguments eof) (mark .lparen :: ps) args rest := by
  intro ts hts
  obtain ⟨t, us, rfl, hkind, hus⟩ := exists_mark_of_piecesOf hts
  obtain ⟨r, hr, hvalue, hrest⟩ := h us hus
  rw [attributeArguments, if_neg (kind_ne_of_eq hkind Kind.noConfusion), if_pos hkind, hr]
  exact ⟨_, rfl, hvalue, hrest⟩

/-- The arguments of an attribute are read back with their parentheses, also if there are none. -/
theorem reads_attributeArguments (args : List Argument) (rest : List Piece) :
    Reads (attributeArguments eof) (Attribute.argsPieces args ++ mark .rbracket :: rest) args
      (mark .rbracket :: rest) := by
  cases args with
  | nil =>
    intro ts hts
    obtain ⟨t, us, rfl, hkind, hus⟩ := exists_mark_of_piecesOf hts
    rw [attributeArguments, if_neg (kind_ne_of_eq hkind Kind.noConfusion),
      if_neg (kind_ne_of_eq hkind Kind.noConfusion)]
    exact ⟨_, rfl, rfl, hts⟩
  | cons arg args =>
    rw [Attribute.argsPieces, if_neg (by simp), Piece.enclosed_append]
    exact reads_listedArguments eof
      (reads_argumentList eof (fun a _ => readsArgument_pieces eof a) _)

/-- An attribute is read from its name and its arguments. -/
theorem reads_attributeBody_of_arguments {name : String} {args : List Argument}
    {ps rest : List Piece} (hhead : Piece.headKind ps ≠ .colonColon)
    (h : Reads (attributeArguments eof) ps args (mark .rbracket :: rest)) :
    Reads (attributeBody eof) (Piece.path (partsOf name) ++ ps) ⟨name, args⟩ rest := by
  intro ts hts
  obtain ⟨hpath, hleft⟩ := path_of_piecesOf (partsOf_ne_nil name) hts hhead
  obtain ⟨args, hargs, rfl, hrest⟩ := h _ hleft
  have hbracket : piecesOf (dropToBracket args.rest) = mark .rbracket :: rest := by
    rw [dropToBracket_of_headKind, hrest]
    rw [headKind_of_piecesOf hrest]
    rfl
  obtain ⟨closing, hclosing, hend⟩ := expect_of_mark hbracket eof
    (.closingAttribute (pathText (path ts).1))
  rw [attributeBody, hargs]
  simp only [bind, Except.bind, hclosing]
  refine ⟨_, rfl, ?_, hend⟩
  rw [hpath, pathText_partsOf]

/-- An attribute is read back inside its brackets. -/
theorem reads_attributeBody (a : Attribute) (rest : List Piece) :
    Reads (attributeBody eof) (Piece.path (partsOf a.name) ++
      (Attribute.argsPieces a.args ++ mark .rbracket :: rest)) a rest := by
  have hhead : Piece.headKind (Attribute.argsPieces a.args ++ mark .rbracket :: rest) ≠
      .colonColon := by
    rw [Attribute.argsPieces]
    split <;> exact Kind.noConfusion
  exact reads_attributeBody_of_arguments eof hhead (reads_attributeArguments eof a.args rest)

end Reading

/-! ## Attributes in canonical form are legible -/

/-- The tokens of an argument are legible. -/
theorem Argument.legible_pieces {a : Argument} (h : isName a.key) : ∀ p ∈ a.pieces, p.Legible := by
  rw [Argument.pieces]
  split
  · rw [List.forall_mem_singleton]
    exact Piece.legible_name h
  · rw [List.forall_mem_cons, List.forall_mem_cons, List.forall_mem_singleton]
    exact ⟨Piece.legible_name h, Piece.legible_mark (by decide), Piece.legible_string _⟩

/-- The tokens of an attribute are legible. -/
theorem Attribute.legible_pieces {a : Attribute} (h : a.isWritable) :
    ∀ p ∈ a.pieces, p.Legible := by
  rw [Attribute.isWritable, Bool.and_eq_true, List.all_eq_true, List.all_eq_true] at h
  obtain ⟨hname, hargs⟩ := h
  have hlist : ∀ p ∈ argsPieces a.args, p.Legible := by
    rw [argsPieces]
    split
    · exact List.forall_mem_nil _
    · exact Piece.legible_enclosed (by decide) (by decide)
        (Piece.legible_separated fun arg harg => Argument.legible_pieces (hargs arg harg))
  rw [Attribute.pieces, List.forall_mem_cons, List.forall_mem_cons, List.forall_mem_append,
    List.forall_mem_append, List.forall_mem_singleton]
  exact ⟨Piece.legible_mark (by decide), Piece.legible_mark (by decide), Piece.legible_path hname,
    hlist, Piece.legible_mark (by decide)⟩

end Rust
end Ferrotype

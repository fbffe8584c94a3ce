/-
# Reading pieces

Parsers read tokens, but what they give depends on the pieces of the tokens alone. `Reads` says what
a parser gives for all tokens with certain pieces, and which pieces are left; the statements about
the productions of the grammar have this form.
-/

import Ferrotype.Proofs.Rust.Canonical.Piece
import Ferrotype.Proofs.Rust.Parse.Separated

namespace Ferrotype
namespace Rust

/-! ## Tokens with given pieces -/

/-- The pieces of tokens. -/
def piecesOf (ts : List Token) : List Piece := ts.map Token.piece

@[simp] theorem piecesOf_nil : piecesOf [] = [] := rfl

@[simp] theorem piecesOf_cons (t : Token) (ts : List Token) :
    piecesOf (t :: ts) = t.piece :: piecesOf ts := rfl

/-- Tokens with a first piece start with a token of that kind and text. -/
theorem exists_cons_of_piecesOf {ts : List Token} {p : Piece} {ps : List Piece}
    (h : piecesOf ts = p :: ps) :
    ∃ t us, ts = t :: us ∧ t.kind = p.kind ∧ t.text = p.text ∧ piecesOf us = ps := by
  obtain ⟨t, us, rfl, hpiece, hrest⟩ := List.map_eq_cons_iff.1 h
  obtain ⟨hkind, htext⟩ := Piece.mk.inj hpiece
  exact ⟨t, us, rfl, hkind, htext, hrest⟩

/-- Tokens whose first piece is a mark start with a token of its kind. -/
theorem exists_mark_of_piecesOf {ts : List Token} {kind : Kind} {ps : List Piece}
    (h : piecesOf ts = Piece.mark kind :: ps) :
    ∃ t us, ts = t :: us ∧ t.kind = kind ∧ piecesOf us = ps := by
  obtain ⟨t, us, hts, hkind, -, hus⟩ := exists_cons_of_piecesOf h
  exact ⟨t, us, hts, hkind, hus⟩

/-- A token of one kind is of no other. -/
theorem kind_ne_of_eq {t : Token} {kind kind' : Kind} (h : t.kind = kind) (hne : kind ≠ kind') :
    t.kind ≠ kind' :=
  h ▸ hne

namespace Piece

/-- The kind of the next piece. -/
def headKind : List Piece → Kind
  | [] => .eof
  | p :: _ => p.kind

@[simp] theorem headKind_cons (p : Piece) (ps : List Piece) : headKind (p :: ps) = p.kind := rfl

end Piece

/-- The next kind is that of the next piece. -/
theorem headKind_of_piecesOf {ts : List Token} {ps : List Piece} (h : piecesOf ts = ps) :
    headKind ts = Piece.headKind ps := by
  subst h
  cases ts <;> rfl

/-- Tokens of another kind are not passed over. -/
theorem dropIf_of_headKind {kind : Kind} {ts : List Token} (h : headKind ts ≠ kind) :
    dropIf kind ts = ts := by
  cases ts with
  | nil => rfl
  | cons t ts => exact if_neg h

/-! ## What a parser reads -/

/-- What a parser gives for all tokens with certain pieces: a value, and the pieces that are
left. -/
def Reads {α : Type} {n : List Token → Nat}
    (parser : (ts : List Token) → Result (Parsed α (n ts))) (ps : List Piece) (value : α)
    (rest : List Piece) : Prop :=
  ∀ ts, piecesOf ts = ps → ∃ r, parser ts = .ok r ∧ r.value = value ∧ piecesOf r.rest = rest

/-- In front of a mark a parser leaves a token of that kind. -/
theorem Reads.exists_of_mark {α : Type} {n : List Token → Nat}
    {parser : (ts : List Token) → Result (Parsed α (n ts))} {ps rest : List Piece} {value : α}
    {kind : Kind} (h : Reads parser ps value (Piece.mark kind :: rest)) {ts : List Token}
    (hts : piecesOf ts = ps) :
    ∃ u us, ∃ hshorter : (u :: us).length < n ts, parser ts = .ok ⟨value, u :: us, hshorter⟩ ∧
      u.kind = kind ∧ piecesOf us = rest := by
  obtain ⟨⟨value, left, hshorter⟩, hr, rfl, hrest⟩ := h ts hts
  obtain ⟨u, us, rfl, hu, hus⟩ := exists_mark_of_piecesOf hrest
  exact ⟨u, us, hshorter, hr, hu, hus⟩

section Separated

variable {α : Type} {eof : Token} {closer : Kind}
  {others : (ts : List Token) → Result (Parsed α ts.length)} {add : α → α} {last : α}
  {missing : Token → ParseError}

/-- Behind the last member of a list the bracket is read that closes it. -/
theorem reads_parseSeparated_last (hcloser : closer ≠ .comma) (rest : List Piece) :
    Reads (parseSeparated eof closer others add last missing) (Piece.mark closer :: rest) last
      rest := by
  intro ts hts
  obtain ⟨t, us, rfl, hkind, hus⟩ := exists_mark_of_piecesOf hts
  rw [parseSeparated, if_neg (kind_ne_of_eq hkind hcloser), if_pos hkind]
  exact ⟨_, rfl, rfl, hus⟩

/-- Behind a comma the other members are read. -/
theorem reads_parseSeparated_cons {ps rest : List Piece} {value : α}
    (h : Reads others ps value rest) :
    Reads (parseSeparated eof closer others add last missing) (Piece.mark .comma :: ps) (add value)
      rest := by
  intro ts hts
  obtain ⟨t, us, rfl, hkind, hus⟩ := exists_mark_of_piecesOf hts
  obtain ⟨more, hmore, hvalue, hend⟩ := h us hus
  rw [parseSeparated, if_pos hkind, hmore]
  exact ⟨_, rfl, congrArg add hvalue, hend⟩

end Separated

/-- A mark that is expected is found. -/
theorem expect_of_mark {ts : List Token} {kind : Kind} {ps : List Piece}
    (h : piecesOf ts = Piece.mark kind :: ps) (eof : Token) (place : Place) :
    ∃ r, expect eof kind place ts = .ok r ∧ piecesOf r.rest = ps := by
  obtain ⟨t, us, rfl, hkind, hus⟩ := exists_mark_of_piecesOf h
  refine ⟨.past t t us, ?_, hus⟩
  rw [expect, if_pos hkind]

/-! ## Names -/

namespace Piece

/-- Whether a text is a name: a word that is no keyword. -/
def isName (text : String) : Bool :=
  isWord text.toList && Kind.ofWord text.toList == .identifier

/-- A name. -/
def name (text : String) : Piece := ⟨.identifier, text⟩

end Piece

/-- A name that is expected is found. -/
theorem expect_of_name {ts : List Token} {text : String} {ps : List Piece}
    (h : piecesOf ts = Piece.name text :: ps) (eof : Token) (place : Place) :
    ∃ r, expect eof .identifier place ts = .ok r ∧ r.value.text = text ∧
      piecesOf r.rest = ps := by
  obtain ⟨t, us, rfl, hkind, htext, hus⟩ := exists_cons_of_piecesOf h
  refine ⟨.past t t us, ?_, htext, hus⟩
  rw [expect]
  exact if_pos hkind

namespace Piece

/-- Names are legible. -/
theorem legible_name {text : String} (h : isName text) : (name text).Legible := by
  rw [isName, Bool.and_eq_true, beq_iff_eq] at h
  have hword := legible_of_isWord h.1
  rwa [h.2] at hword

/-- A name is not empty. -/
theorem ne_empty_of_isName {text : String} (h : isName text) : text ≠ "" := by
  rintro rfl
  cases h

/-- The pieces of several things with commas between them. -/
def separated {α : Type} (write : α → List Piece) : List α → List Piece
  | [] => []
  | [a] => write a
  | a :: b :: more => write a ++ mark .comma :: separated write (b :: more)

/-- The tokens of a list are legible if those of its members are. -/
theorem legible_separated {α : Type} {write : α → List Piece} {as : List α}
    (h : ∀ a ∈ as, ∀ p ∈ write a, p.Legible) : ∀ p ∈ separated write as, p.Legible := by
  fun_induction separated write as with
  | case1 => exact List.forall_mem_nil _
  | case2 a => exact List.forall_mem_singleton.1 h
  | case3 a b more ih =>
    obtain ⟨ha, hmore⟩ := List.forall_mem_cons.1 h
    rw [List.forall_mem_append, List.forall_mem_cons]
    exact ⟨ha, legible_mark (by decide), ih hmore⟩

end Piece

end Rust
end Ferrotype

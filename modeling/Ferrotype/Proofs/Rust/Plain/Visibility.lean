/-
# Visibility

Between the preamble and the keyword of an item its visibility can stand: nothing, `pub`, or `pub`
and a scope in parentheses. It leaves no trace (`dropVisibility_append`), so an item is read from
its preamble and its declaration, whatever stands between them (`parseItems_of_reads`).
-/

import Ferrotype.Proofs.Rust.Canonical.Preamble
import Ferrotype.Proofs.Rust.Parse.Continue.Item
import Ferrotype.Proofs.Rust.Plain.Type

namespace Ferrotype
namespace Rust

open Piece (mark)

/-- Who can see an item: its module alone, everyone, or a scope that is given by its pieces. -/
inductive Visibility
  | inherited
  | everywhere
  | within (scope : List Piece)

namespace Visibility

/-- The pieces of a visibility. -/
def pieces : Visibility → List Piece
  | inherited => []
  | everywhere => [⟨.pub, "pub"⟩]
  | within scope => ⟨.pub, "pub"⟩ :: mark .lparen :: (scope ++ [mark .rparen])

/-- Whether the brackets in a scope are closed. -/
def isWritable : Visibility → Bool
  | within scope => Piece.isClosed 0 scope
  | _ => true

end Visibility

/-- Closed brackets are passed over up to the one that closes the group around them. -/
theorem closeGroup_of_isClosed {depth : Nat} {inner us : List Token} {u : Token}
    (hinner : Piece.isClosed depth (piecesOf inner)) (hu : u.kind.closes) :
    closeGroup depth (inner ++ u :: us) = us := by
  induction inner generalizing depth with
  | nil =>
    obtain rfl := beq_iff_eq.1 hinner
    have hopens : u.kind.opens = false := by
      revert hu
      cases u.kind <;> simp [Kind.opens, Kind.closes]
    simp [closeGroup, hopens, hu]
  | cons t inner ih =>
    rw [piecesOf_cons, Piece.isClosed, Bool.and_eq_true, Bool.not_eq_true',
      Bool.and_eq_false_iff, beq_eq_false_iff_ne] at hinner
    obtain ⟨hinside, hinner⟩ := hinner
    have hrest := ih hinner
    rw [List.cons_append, closeGroup.eq_def]
    simp only
    split
    · rename_i hopens
      rwa [Token.piece, if_pos hopens] at hrest
    · rename_i hopens
      rw [Token.piece, if_neg hopens] at hrest
      split
      · rename_i hcloses
        rw [if_pos hcloses] at hrest
        cases depth with
        | zero => exact (hinside.elim (absurd rfl) fun h => Bool.eq_false_iff.1 h hcloses).elim
        | succ depth => exact hrest
      · rename_i hcloses
        rwa [if_neg hcloses] at hrest

/-- **Visibility leaves no trace**, but for `pub` in front of a parenthesis, which is taken for its
scope. -/
theorem dropVisibility_append {v : Visibility} (hv : v.isWritable) {vs us : List Token}
    (hvs : piecesOf vs = v.pieces) (hpub : headKind us ≠ .pub)
    (hscope : v = .everywhere → headKind us ≠ .lparen) : dropVisibility (vs ++ us) = us := by
  cases v with
  | inherited =>
    obtain rfl := List.map_eq_nil_iff.1 hvs
    cases us with
    | nil => rfl
    | cons u us => exact if_neg hpub
  | everywhere =>
    obtain ⟨t, ts, rfl, hkind, -, hts⟩ := exists_cons_of_piecesOf hvs
    obtain rfl := List.map_eq_nil_iff.1 hts
    rw [List.singleton_append, dropVisibility, if_pos hkind, if_neg (hscope rfl)]
  | within scope =>
    obtain ⟨t, ts, rfl, hkind, -, hts⟩ := exists_cons_of_piecesOf hvs
    obtain ⟨u, rest, rfl, hu, hrest⟩ := exists_mark_of_piecesOf hts
    obtain ⟨inner, closing, rfl, hinner, hclosing⟩ := List.map_eq_append_iff.1 hrest
    obtain ⟨c, cs, rfl, hc, hcs⟩ := exists_mark_of_piecesOf hclosing
    obtain rfl := List.map_eq_nil_iff.1 hcs
    have hscope : Piece.isClosed 0 (piecesOf inner) := by
      rw [piecesOf, hinner]
      exact hv
    rw [List.cons_append, List.cons_append, List.append_assoc, List.singleton_append,
      dropVisibility, if_pos hkind, headKind_cons, if_pos hu, dropUnit, hu]
    exact closeGroup_of_isClosed hscope (by rw [hc]; rfl)

/-- A visibility starts with `pub`; without one the next kind is that of what follows. -/
theorem headKind_visibility (v : Visibility) {kind : Kind} {rest : List Piece}
    (hpub : kind ≠ .pub) (hrest : Piece.headKind rest ≠ kind) :
    Piece.headKind (v.pieces ++ rest) ≠ kind := by
  cases v with
  | inherited => exact hrest
  | everywhere => exact hpub.symm
  | within scope => exact hpub.symm

/-- A visibility or what stands behind it comes next. -/
theorem headKind_append_visibility {v : Visibility} {vs us : List Token}
    (hvs : piecesOf vs = v.pieces) {kind : Kind} (hpub : kind ≠ .pub) (hus : headKind us ≠ kind) :
    headKind (vs ++ us) ≠ kind := by
  have hpieces : piecesOf (vs ++ us) = v.pieces ++ piecesOf us := by
    rw [piecesOf, List.map_append, ← hvs]
    rfl
  rw [headKind_of_piecesOf hpieces]
  rw [headKind_of_piecesOf rfl] at hus
  exact headKind_visibility v hpub hus

/-- What a declaration is read as behind its preamble and its visibility. -/
def ReadsItem (eof : Token) (p : Preamble) (ps : List Piece) (item : Item)
    (rest : List Piece) : Prop :=
  ∀ us, piecesOf us = ps → ∃ t ts r, us = t :: ts ∧ t.kind ≠ .pub ∧ t.kind ≠ .lparen ∧
    parseItem eof p t ts = .ok (some r) ∧ r.value = item ∧ piecesOf r.rest = rest

/-- **An item is read from its preamble, its visibility and its declaration**, in front of other
items. -/
theorem parseItems_of_reads {eof : Token} {front declaration rest : List Piece} {p : Preamble}
    {v : Visibility} (hv : v.isWritable) {item : Item} {items : List Item}
    (hinner : ¬ Piece.opensInner (front ++ (v.pieces ++ declaration)))
    (hfront : Reads (preamble eof) (front ++ (v.pieces ++ declaration)) p
      (v.pieces ++ declaration))
    (hitem : ReadsItem eof p declaration item rest)
    (hrest : ∀ ts, piecesOf ts = rest → parseItems eof ts = .ok items) {ts : List Token}
    (hts : piecesOf ts = front ++ (v.pieces ++ declaration)) :
    parseItems eof ts = .ok (item :: items) := by
  obtain ⟨q, hq, rfl, hleft⟩ := hfront ts hts
  obtain ⟨vs, us, hsplit, hvs, hus⟩ := List.map_eq_append_iff.1 hleft
  obtain ⟨u, us, r, rfl, hpub, hparen, hr, rfl, hend⟩ := hitem us hus
  have hvisible : dropVisibility q.rest = u :: us := by
    rw [hsplit]
    exact dropVisibility_append hv hvs hpub fun _ => hparen
  cases ts with
  | nil =>
    have hshorter := q.shorter
    simp only [hsplit, List.length_append, List.length_cons, List.length_nil] at hshorter
    omega
  | cons t ts =>
    have hbang : ¬ (t.kind = .hash ∧ headKind ts = .bang) := by
      rintro ⟨hhash, hbang⟩
      rw [← hts] at hinner
      exact hinner ⟨hhash, (headKind_of_piecesOf rfl).symm.trans hbang⟩
    rw [parseItems_of_preamble hbang hq, hvisible]
    simp only [hr, bind, Except.bind, hrest _ hend]
    rfl

end Rust
end Ferrotype

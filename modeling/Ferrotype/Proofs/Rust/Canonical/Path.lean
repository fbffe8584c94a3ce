/-
# Spelling paths

In canonical form a path is its names with a double colon between them. The text of a path is cut
at its double colons, and `pathText_partsOf` says that the names make up the text again.

`path_of_piecesOf` says that a path is read up to what follows it, if that does not go on with it.
-/

import Ferrotype.Proofs.Rust.Canonical.Reads

namespace Ferrotype
namespace Rust

open Piece (isName)

/-! ## Texts of paths -/

namespace Piece

/-- No colon stands in a name. -/
theorem ne_colon_of_isName {text : String} (h : isName text) : ∀ c ∈ text.toList, c ≠ ':' := by
  rw [isName, Bool.and_eq_true] at h
  have hword := h.1
  intro c hc
  cases htext : text.toList with
  | nil =>
    rw [htext] at hc
    cases hc
  | cons d ds =>
    rw [htext, isWord, Bool.and_eq_true] at hword
    rw [htext] at hc
    rcases List.mem_cons.1 hc with rfl | hc
    · exact ne_of_isWordStart hword.1 (by decide)
    · exact ne_of_isWordChar (List.all_eq_true.1 hword.2 c hc) (by decide)

end Piece

/-- A path has a segment. -/
theorem segments_ne_nil (cs : List Char) : Text.segments cs ≠ [] := by
  fun_cases Text.segments cs <;> exact List.cons_ne_nil _ _

/-- What stands in front of the first part stands in front of all of them. -/
theorem join_append_cons (sep a b : String) (parts : List String) :
    Text.join sep ((a ++ b) :: parts) = a ++ Text.join sep (b :: parts) := by
  cases parts with
  | nil => rfl
  | cons next parts =>
    rw [Text.join_cons_cons, Text.join_cons_cons, String.append_assoc, String.append_assoc,
      String.append_assoc]

/-- Cutting a text at its double colons loses nothing. -/
theorem join_segments (cs : List Char) :
    Text.join "::" ((Text.segments cs).map String.ofList) = String.ofList cs := by
  fun_induction Text.segments cs with
  | case1 => rfl
  | case2 rest ih =>
    cases hsegments : Text.segments rest with
    | nil => exact absurd hsegments (segments_ne_nil rest)
    | cons piece pieces =>
      rw [hsegments, List.map_cons] at ih
      rw [List.map_cons, List.map_cons, Text.join_cons_cons, ih, ← String.toList_inj]
      simp
  | case3 c rest _ hsegments => exact absurd hsegments (segments_ne_nil rest)
  | case4 c rest _ piece pieces hsegments ih =>
    rw [hsegments, List.map_cons] at ih
    rw [List.map_cons, String.ofList_cons, join_append_cons, ih, ← String.ofList_cons]

/-- The segments of the text of a path. -/
def partsOf (text : String) : List String := (Text.segments text.toList).map String.ofList

/-- A path has a part. -/
theorem partsOf_ne_nil (text : String) : partsOf text ≠ [] := by
  rw [partsOf, ne_eq, List.map_eq_nil_iff]
  exact segments_ne_nil _

/-- The segments of a path make up its text. -/
theorem pathText_partsOf (text : String) : pathText (partsOf text) = text := by
  rw [pathText, partsOf, join_segments, String.ofList_toList]

/-- Without a colon a path has one segment. -/
theorem segments_of_ne_colon {cs : List Char} (h : ∀ c ∈ cs, c ≠ ':') :
    Text.segments cs = [cs] := by
  fun_induction Text.segments cs with
  | case1 => rfl
  | case2 rest => exact absurd rfl (h ':' List.mem_cons_self)
  | case3 c rest _ hsegments => exact absurd hsegments (segments_ne_nil rest)
  | case4 c rest _ piece pieces hsegments ih =>
    have hrest := ih (List.forall_mem_cons.1 h).2
    rw [hsegments] at hrest
    obtain ⟨rfl, rfl⟩ := List.cons.inj hrest
    rfl

/-- A name is its own last segment. -/
theorem lastSegment_of_isName {text : String} (h : isName text) : Text.lastSegment text = text := by
  rw [Text.lastSegment, segments_of_ne_colon (Piece.ne_colon_of_isName h)]
  exact String.ofList_toList

/-! ## Pieces of paths -/

namespace Piece

/-- Names with a double colon between them. -/
def path : List String → List Piece
  | [] => []
  | [part] => [name part]
  | part :: next :: parts => name part :: mark .colonColon :: path (next :: parts)

/-- The tokens of a path are legible. -/
theorem legible_path {parts : List String} (h : ∀ part ∈ parts, isName part) :
    ∀ p ∈ path parts, p.Legible := by
  fun_induction path parts with
  | case1 => exact List.forall_mem_nil _
  | case2 part =>
    rw [List.forall_mem_singleton] at h ⊢
    exact legible_name h
  | case3 part next parts ih =>
    obtain ⟨hpart, hparts⟩ := List.forall_mem_cons.1 h
    rw [List.forall_mem_cons, List.forall_mem_cons]
    exact ⟨legible_name hpart, legible_mark (by decide), ih hparts⟩

/-- A path starts with a name. -/
theorem headKind_path {parts : List String} (h : parts ≠ []) (rest : List Piece) :
    headKind (path parts ++ rest) = .identifier := by
  fun_cases path parts with
  | case1 => exact absurd rfl h
  | case2 part => rfl
  | case3 part next parts => rfl

end Piece

/-! ## Reading paths -/

/-- **The segments of a path are read up to what follows it.** -/
theorem segments_of_piecesOf {parts : List String} (hparts : parts ≠ []) {ts : List Token}
    {rest : List Piece} (h : piecesOf ts = Piece.path parts ++ rest)
    (hrest : Piece.headKind rest ≠ .colonColon) :
    (segments ts).1 = parts ∧ piecesOf (segments ts).2 = rest := by
  induction parts using Piece.path.induct generalizing ts with
  | case1 => exact absurd rfl hparts
  | case2 part =>
    obtain ⟨t, us, rfl, hkind, htext, hus⟩ := exists_cons_of_piecesOf h
    have hsegment : isSegment t.kind := by rw [hkind]; rfl
    have hhead : headKind us ≠ .colonColon := by rwa [headKind_of_piecesOf hus]
    cases us with
    | nil =>
      rw [segments, if_pos hsegment, htext]
      exact ⟨rfl, hus⟩
    | cons s us =>
      rw [segments, if_pos hsegment, if_neg (fun hs => hhead hs.1), htext]
      exact ⟨rfl, hus⟩
  | case3 part next parts ih =>
    obtain ⟨t, us, rfl, hkind, htext, hus⟩ := exists_cons_of_piecesOf h
    obtain ⟨s, us, rfl, hskind, -, hus⟩ := exists_cons_of_piecesOf hus
    have hsegment : isSegment t.kind := by rw [hkind]; rfl
    have hnext : headKind us = .identifier := by
      rw [headKind_of_piecesOf hus]
      exact Piece.headKind_path (List.cons_ne_nil _ _) rest
    obtain ⟨hsegments, hleft⟩ := ih (List.cons_ne_nil _ _) hus
    rw [segments, if_pos hsegment, if_pos ⟨hskind, by rw [hnext]; exact Kind.noConfusion⟩,
      hsegments, htext]
    exact ⟨rfl, hleft⟩

/-- A path is read up to where no two colons follow. The induction is on its parts. -/
theorem path_of_piecesOf {parts : List String} (hparts : parts ≠ []) {ts : List Token}
    {rest : List Piece} (h : piecesOf ts = Piece.path parts ++ rest)
    (hrest : Piece.headKind rest ≠ .colonColon) :
    (path ts).1 = parts ∧ piecesOf (path ts).2 = rest := by
  have hhead : headKind ts ≠ .colonColon := by
    rw [headKind_of_piecesOf h, Piece.headKind_path hparts]
    exact Kind.noConfusion
  rw [path, dropIf_of_headKind hhead]
  exact segments_of_piecesOf hparts h hrest

end Rust
end Ferrotype

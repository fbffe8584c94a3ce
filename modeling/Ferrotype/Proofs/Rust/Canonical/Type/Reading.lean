/-
# Reading types

What starts with a name is a path with or without arguments, and parentheses stand for what is read
between them. The lemmas here say what is read if it is known what is read inside; the types in
between are separated by commas.
-/

import Ferrotype.Proofs.Rust.Canonical.Type.Spelling
import Ferrotype.Proofs.Rust.Parse.Branch

namespace Ferrotype
namespace Rust

open Piece (mark)

/-- Whether a type can end in front of pieces: they do not go on with its path. -/
def endsType (ps : List Piece) : Prop :=
  Piece.headKind ps ≠ .colonColon ∧ Piece.headKind ps ≠ .lt

section Reading

variable (eof : Token)

/-- Nothing is dropped where no two colons stand. -/
theorem dropTurbofish_of_headKind {ts : List Token} (h : headKind ts ≠ .colonColon) :
    dropTurbofish ts = ts := by
  fun_cases dropTurbofish ts with
  | case1 s t ts hkind => exact absurd hkind.1 h
  | case2 => rfl
  | case3 => rfl

/-- A name that is no keyword of types starts no type that is kept as text. -/
theorem not_startsVerbatim {t : Token} (hkind : t.kind = .identifier)
    (hword : verbatimWords.contains t.text = false) : ¬ startsVerbatim t := by
  rw [startsVerbatim, hkind]
  simp only [hword]
  exact Bool.false_ne_true

/-- A name that is no keyword of types starts a path. -/
theorem startsPath_of_identifier {t : Token} {us : List Token} (hkind : t.kind = .identifier)
    (hword : verbatimWords.contains t.text = false) (hparts : (path (t :: us)).1 ≠ []) :
    StartsPath t us :=
  ⟨kind_ne_of_eq hkind Kind.noConfusion, kind_ne_of_eq hkind Kind.noConfusion,
    kind_ne_of_eq hkind Kind.noConfusion, kind_ne_of_eq hkind Kind.noConfusion,
    not_startsVerbatim hkind hword, hparts⟩

/-- **A path without arguments is sorted by its text.** -/
theorem reads_path {part : String} {parts : List String} {rest : List Piece}
    (hpart : verbatimWords.contains part = false) (hrest : endsType rest) :
    Reads (parseType eof) (Piece.path (part :: parts) ++ rest)
      (.classify (pathText (part :: parts)) []) rest := by
  intro ts hts
  have hhead : ∃ ps, Piece.path (part :: parts) ++ rest = Piece.name part :: ps := by
    cases parts <;> exact ⟨_, rfl⟩
  obtain ⟨ps, hps⟩ := hhead
  obtain ⟨t, us, rfl, hkind, htext, -⟩ := exists_cons_of_piecesOf (hts.trans hps)
  obtain ⟨hparts, hleft⟩ := path_of_piecesOf (List.cons_ne_nil _ _) hts hrest.1
  have hturbofish : dropTurbofish (path (t :: us)).2 = (path (t :: us)).2 := by
    refine dropTurbofish_of_headKind ?_
    rw [headKind_of_piecesOf hleft]
    exact hrest.1
  have hstarts := startsPath_of_identifier hkind (htext ▸ hpart)
    (by rw [hparts]; exact List.cons_ne_nil _ _)
  obtain ⟨r, hr, hvalue, hleave⟩ := parseType_of_headKind eof hstarts
    (by rw [hturbofish, headKind_of_piecesOf hleft]; exact hrest.2)
  refine ⟨r, hr, ?_, ?_⟩
  · rw [hvalue, hparts]
  · rw [hleave, hturbofish, hleft]

/-- **A name with arguments is sorted by the name and what is read of them.** -/
theorem reads_applied {name : String} {args rest : List Piece} {values : List TypeExpr}
    (hname : verbatimWords.contains name = false)
    (hargs : Reads (parseArguments eof) (args ++ mark .gt :: rest) values rest) :
    Reads (parseType eof) (appliedPieces name args ++ rest) (.classify name values) rest := by
  intro ts hts
  have hpieces : appliedPieces name args ++ rest =
      Piece.path [name] ++ mark .lt :: (args ++ mark .gt :: rest) := by
    simp [appliedPieces, Piece.path]
  rw [hpieces] at hts
  obtain ⟨t, us, rfl, hkind, htext, -⟩ := exists_cons_of_piecesOf hts
  obtain ⟨hparts, hleft⟩ := path_of_piecesOf (List.cons_ne_nil _ _) hts Kind.noConfusion
  obtain ⟨u, vs, hrest, hu, hvs⟩ := exists_mark_of_piecesOf hleft
  have hturbofish : dropTurbofish (path (t :: us)).2 = u :: vs := by
    rw [hrest]
    refine dropTurbofish_of_headKind ?_
    rw [headKind_cons, hu]
    exact Kind.noConfusion
  obtain ⟨read, hread, hvalues, hleave⟩ := hargs vs hvs
  have hstarts := startsPath_of_identifier hkind (htext ▸ hname)
    (by rw [hparts]; exact List.cons_ne_nil _ _)
  obtain ⟨r, hr, hvalue, hend⟩ := parseType_of_parseArguments eof hstarts hturbofish hu hread
  refine ⟨r, hr, ?_, ?_⟩
  · rw [hvalue, hparts, hvalues]
    rfl
  · rw [hend, hleave]

/-- The type without values is read back. -/
theorem reads_bang (rest : List Piece) :
    Reads (parseType eof) (mark .bang :: rest) (.primitive "!") rest := by
  intro ts hts
  obtain ⟨t, us, rfl, hkind, hus⟩ := exists_mark_of_piecesOf hts
  rw [parseType, if_neg (kind_ne_of_eq hkind Kind.noConfusion),
    if_neg (kind_ne_of_eq hkind Kind.noConfusion), if_neg (kind_ne_of_eq hkind Kind.noConfusion),
    if_pos hkind]
  exact ⟨_, rfl, rfl, hus⟩

/-- Parentheses stand for what is read between them. -/
theorem reads_parentheses {ps rest : List Piece} {elements : List TypeExpr} {comma : Bool}
    (h : Reads (parseElements eof · false) ps (elements, comma) rest) :
    Reads (parseType eof) (mark .lparen :: ps) (ofElements elements comma) rest := by
  intro ts hts
  obtain ⟨t, us, rfl, hkind, hus⟩ := exists_mark_of_piecesOf hts
  obtain ⟨read, (hread : parseElements eof us false = .ok read), hvalue, hleave⟩ := h us hus
  rw [parseType, if_neg (kind_ne_of_eq hkind Kind.noConfusion), if_pos hkind, hread]
  refine ⟨_, rfl, ?_, hleave⟩
  rw [Parsed.value_later, Parsed.value_map, hvalue]

/-! ## Lists of types -/

/-- Whether a kind of token starts a type, and no argument of a path that is left out. -/
def startsType : Kind → Bool
  | .lparen | .lbracket | .bang | .ampersand | .colonColon | .identifier => true
  | _ => false

/-- What starts a type starts no constant argument. -/
theorem startsConstant_of_startsType {kind : Kind} (h : startsType kind) :
    startsConstant kind = false := by
  revert h
  cases kind <;> simp [startsType, startsConstant]

/-- Whether pieces start like a type and not like a binding among the arguments of a path. -/
def OpensType : List Piece → Prop
  | [] => False
  | p :: ps => startsType p.kind ∧
    (p.kind = .identifier → Piece.headKind ps ≠ .eq ∧ Piece.headKind ps ≠ .colon)

/-- What starts like a type is no argument that is left out. -/
theorem exists_cons_of_opensType {ts : List Token} {ps : List Piece} (hts : piecesOf ts = ps)
    (h : OpensType ps) :
    ∃ t us, ts = t :: us ∧ startsType t.kind ∧ skippedArgument? t us = none := by
  cases ps with
  | nil => exact absurd h id
  | cons p ps =>
    obtain ⟨t, us, rfl, hkind, -, hus⟩ := exists_cons_of_piecesOf hts
    obtain ⟨hstarts, hbinding⟩ := h
    rw [← hkind] at hstarts hbinding
    rw [← headKind_of_piecesOf hus] at hbinding
    refine ⟨t, us, rfl, hstarts, ?_⟩
    have hlifetime : t.kind ≠ .lifetime := by
      rintro hlifetime
      rw [hlifetime] at hstarts
      cases hstarts
    have hconstant : ¬ startsConstant t.kind := by
      rw [startsConstant_of_startsType hstarts]
      exact Bool.false_ne_true
    rw [skippedArgument?, if_neg hlifetime, dif_neg]
    rintro (h | ⟨hname, heq | hcolon⟩)
    · exact hconstant h
    · exact (hbinding hname).1 heq
    · exact (hbinding hname).2 hcolon

/-- What starts a type is of no other kind. -/
theorem ne_of_startsType {kind kind' : Kind} (h : startsType kind)
    (hkind' : startsType kind' = false) : kind ≠ kind' := by
  rintro rfl
  rw [hkind'] at h
  cases h

section Lists

variable {ps qs rest : List Piece} {v : TypeExpr} {vs : List TypeExpr} (hopens : OpensType ps)
include hopens

/-- Arguments are read back if the first one is and what stands behind it. -/
theorem reads_arguments_of_behind (h : Reads (parseType eof) ps v qs)
    (hbehind : Reads (argumentsBehind eof [v]) qs vs rest) :
    Reads (parseArguments eof) ps vs rest := by
  intro ts hts
  obtain ⟨t, ts, rfl, hstarts, hskipped⟩ := exists_cons_of_opensType hts hopens
  obtain ⟨type, htype, rfl, hleft⟩ := h _ hts
  obtain ⟨args, hargs, hvalues, hend⟩ := hbehind _ hleft
  rw [parseArguments_of_type eof (ne_of_startsType hstarts rfl) hskipped, htype]
  simp only [bind, Except.bind, hargs]
  exact ⟨_, rfl, hvalues, hend⟩

/-- The last argument stands in front of the closing bracket. -/
theorem reads_arguments_last (h : Reads (parseType eof) ps v (mark .gt :: rest)) :
    Reads (parseArguments eof) ps [v] rest :=
  reads_arguments_of_behind eof hopens h (reads_parseSeparated_last Kind.noConfusion rest)

/-- Any other one stands in front of a comma and more arguments. -/
theorem reads_arguments_cons (h : Reads (parseType eof) ps v (mark .comma :: qs))
    (hmore : Reads (parseArguments eof) qs vs rest) :
    Reads (parseArguments eof) ps (v :: vs) rest :=
  reads_arguments_of_behind eof hopens h (reads_parseSeparated_cons hmore)

variable {comma comma' : Bool}

/-- Elements are read back if the first one is and what stands behind it. -/
theorem reads_elements_of_behind {result : List TypeExpr × Bool} (h : Reads (parseType eof) ps v qs)
    (hbehind : Reads (elementsBehind eof v) qs result rest) :
    Reads (parseElements eof · comma) ps result rest := by
  intro ts hts
  obtain ⟨t, ts, rfl, hstarts, -⟩ := exists_cons_of_opensType hts hopens
  obtain ⟨element, helement, rfl, hleft⟩ := h _ hts
  obtain ⟨elements, helements, hvalues, hend⟩ := hbehind _ hleft
  simp only
  rw [parseElements_cons eof (ne_of_startsType hstarts rfl), helement]
  simp only [bind, Except.bind, helements]
  exact ⟨_, rfl, hvalues, hend⟩

/-- The last element stands in front of the closing parenthesis. -/
theorem reads_elements_last (h : Reads (parseType eof) ps v (mark .rparen :: rest)) :
    Reads (parseElements eof · comma) ps ([v], false) rest :=
  reads_elements_of_behind eof hopens h (reads_parseSeparated_last Kind.noConfusion rest)

/-- Any other one stands in front of a comma and more elements. -/
theorem reads_elements_cons (h : Reads (parseType eof) ps v (mark .comma :: qs))
    (hmore : Reads (parseElements eof · true) qs (vs, comma') rest) :
    Reads (parseElements eof · comma) ps (v :: vs, comma') rest :=
  reads_elements_of_behind eof hopens h (reads_parseSeparated_cons hmore)

end Lists

/-- No elements are read back in front of the closing parenthesis. -/
theorem reads_elements_nil (rest : List Piece) (comma : Bool) :
    Reads (parseElements eof · comma) (mark .rparen :: rest) ([], comma) rest := by
  intro ts hts
  obtain ⟨t, us, rfl, hkind, hus⟩ := exists_mark_of_piecesOf hts
  simp only
  rw [parseElements, if_pos hkind]
  exact ⟨_, rfl, rfl, hus⟩

end Reading

end Rust
end Ferrotype

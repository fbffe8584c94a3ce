/-
# Names behind module paths

A name can stand behind the path of its module, which may start at the root of all crates. What a
path is sorted as depends on its last name alone (`classify_pathText`): only `serde_json::Value` is
known by its full path, and its name is none of the names of containers. So a container with
arguments is read as without its module path (`reads_scoped`). A lifetime in front of the arguments
is left out (`reads_arguments_lifetime`).
-/

import Ferrotype.Proofs.Rust.Canonical.Type

namespace Ferrotype
namespace Rust

open Piece (mark isName)

/-! ## Texts -/

/-- A part in front of two colons is a segment. -/
theorem segments_append_colons {cs : List Char} (h : ∀ c ∈ cs, c ≠ ':') (rest : List Char) :
    Text.segments (cs ++ ':' :: ':' :: rest) = cs :: Text.segments rest := by
  induction cs with
  | nil => rw [List.nil_append, Text.segments]
  | cons c cs ih =>
    obtain ⟨hc, hcs⟩ := List.forall_mem_cons.1 h
    rw [List.cons_append, Text.segments, ih hcs]
    exact fun _ hcolon _ => hc hcolon

/-- The text of a path is cut into its names again. -/
theorem segments_pathText {parts : List String} (hne : parts ≠ [])
    (h : ∀ part ∈ parts, isName part) :
    Text.segments (pathText parts).toList = parts.map String.toList := by
  induction parts with
  | nil => exact absurd rfl hne
  | cons part parts ih =>
    obtain ⟨hpart, hparts⟩ := List.forall_mem_cons.1 h
    have hcolon := Piece.ne_colon_of_isName hpart
    cases parts with
    | nil => exact segments_of_ne_colon hcolon
    | cons next parts =>
      have htext : (pathText (part :: next :: parts)).toList =
          part.toList ++ ':' :: ':' :: (pathText (next :: parts)).toList := by
        rw [pathText, Text.join_cons_cons]
        simp [pathText]
      rw [htext, segments_append_colons hcolon, ih (List.cons_ne_nil _ _) hparts]
      rfl

/-- The last segment of a path is its last name. -/
theorem lastSegment_pathText {parts : List String} {name : String}
    (hparts : ∀ part ∈ parts, isName part) (hname : isName name) :
    Text.lastSegment (pathText (parts ++ [name])) = name := by
  have hall : ∀ part ∈ parts ++ [name], isName part :=
    List.forall_mem_append.2 ⟨hparts, List.forall_mem_singleton.2 hname⟩
  rw [Text.lastSegment, segments_pathText (List.append_ne_nil_of_right_ne_nil _
    (List.cons_ne_nil _ _)) hall, List.map_append, List.map_singleton, List.getLastD_concat,
    String.ofList_toList]

/-- **A path is sorted by its last name**, if that is not the one that is known by its full path. -/
theorem classify_pathText {parts : List String} {name : String}
    (hparts : ∀ part ∈ parts, isName part) (hname : isName name) (hvalue : name ≠ "Value")
    (args : List TypeExpr) : TypeExpr.classify (pathText (parts ++ [name])) args =
      .classify name args := by
  have hlast := lastSegment_pathText hparts hname
  have hqualified (path : String) (hpath : Text.lastSegment path = name) :
      path ≠ qualifiedScalar := by
    rintro rfl
    exact hvalue (hpath.symm.trans (by decide))
  rw [TypeExpr.classify, if_neg (hqualified _ hlast), TypeExpr.classify,
    if_neg (hqualified _ (lastSegment_of_isName hname)), hlast, lastSegment_of_isName hname]

/-! ## Spelling -/

/-- A module path, and whether it starts at the root of all crates. -/
structure Scope where
  isGlobal : Bool
  parts : List String
deriving Repr, DecidableEq, Inhabited

namespace Scope

/-- The pieces of a name in a module. -/
def pieces (scope : Scope) (name : String) : List Piece :=
  (if scope.isGlobal then [mark .colonColon] else []) ++ Piece.path (scope.parts ++ [name])

/-- Whether a module path consists of names and starts no type that is kept as text. -/
def isWritable (scope : Scope) : Bool :=
  scope.parts.all isName && (scope.isGlobal || !verbatimWords.contains (scope.parts.headD ""))

end Scope

variable {scope : Scope} {name : String} {rest : List Piece}

/-- A path starts with a name. -/
theorem exists_pieces_append (parts : List String) (name : String) (rest : List Piece) :
    ∃ ps, Piece.path (parts ++ [name]) ++ rest = Piece.name (parts.headD name) :: ps := by
  match parts with
  | [] => exact ⟨_, rfl⟩
  | [part] => exact ⟨_, rfl⟩
  | part :: next :: parts => exact ⟨_, rfl⟩

/-! ## Reading -/

/-- The names of a path are read up to what follows it, with and without the root in front. -/
theorem path_of_scope {ts : List Token} (h : piecesOf ts = scope.pieces name ++ rest)
    (hrest : Piece.headKind rest ≠ .colonColon) :
    (path ts).1 = scope.parts ++ [name] ∧ piecesOf (path ts).2 = rest := by
  have hne : scope.parts ++ [name] ≠ [] :=
    List.append_ne_nil_of_right_ne_nil _ (List.cons_ne_nil _ _)
  rw [Scope.pieces] at h
  split at h
  · obtain ⟨t, us, rfl, hkind, hus⟩ := exists_mark_of_piecesOf h
    rw [path, dropIf, if_pos hkind]
    exact segments_of_piecesOf hne hus hrest
  · exact path_of_piecesOf hne h hrest

/-- A name in a scope starts a path: with the colons, with a keyword of the scope, or with a
name. -/
theorem exists_startsPath (hscope : scope.isWritable) (hname : verbatimWords.contains name = false)
    {ts : List Token} (h : piecesOf ts = scope.pieces name ++ rest)
    (hrest : Piece.headKind rest ≠ .colonColon) : ∃ t us, ts = t :: us ∧ StartsPath t us := by
  have hparts := (path_of_scope h hrest).1
  have hne : (path ts).1 ≠ [] := by
    rw [hparts]
    exact List.append_ne_nil_of_right_ne_nil _ (List.cons_ne_nil _ _)
  obtain ⟨ps, hps⟩ := exists_pieces_append scope.parts name rest
  rw [Scope.pieces, List.append_assoc, hps] at h
  cases hglobal : scope.isGlobal with
  | true =>
    rw [hglobal, if_pos rfl] at h
    obtain ⟨t, us, rfl, hkind, -⟩ := exists_mark_of_piecesOf h
    refine ⟨t, us, rfl, ?_, ?_, ?_, ?_, ?_, hne⟩
    · exact kind_ne_of_eq hkind Kind.noConfusion
    · exact kind_ne_of_eq hkind Kind.noConfusion
    · exact kind_ne_of_eq hkind Kind.noConfusion
    · exact kind_ne_of_eq hkind Kind.noConfusion
    · rw [startsVerbatim, hkind]
      exact Bool.false_ne_true
  | false =>
    rw [hglobal, if_neg Bool.false_ne_true, List.nil_append] at h
    obtain ⟨t, us, rfl, hkind, htext, -⟩ := exists_cons_of_piecesOf h
    refine ⟨t, us, rfl, startsPath_of_identifier hkind ?_ hne⟩
    rw [htext]
    rw [Scope.isWritable, hglobal, Bool.false_or, Bool.and_eq_true, Bool.not_eq_true'] at hscope
    cases hsplit : scope.parts with
    | nil => exact hname
    | cons part parts =>
      rw [hsplit] at hscope
      exact hscope.2

variable (eof : Token)

/-- **A name with arguments is read as without the module path in front of it.** -/
theorem reads_scoped (hscope : scope.isWritable) (hname : isName name)
    (hverbatim : verbatimWords.contains name = false) (hvalue : name ≠ "Value")
    {args rest : List Piece} {values : List TypeExpr}
    (hargs : Reads (parseArguments eof) (args ++ mark .gt :: rest) values rest) :
    Reads (parseType eof) (scope.pieces name ++ mark .lt :: (args ++ mark .gt :: rest))
      (.classify name values) rest := by
  intro ts hts
  obtain ⟨t, us, rfl, hstarts⟩ := exists_startsPath hscope hverbatim hts Kind.noConfusion
  obtain ⟨hparts, hleft⟩ := path_of_scope hts Kind.noConfusion
  obtain ⟨u, vs, hrest, hu, hvs⟩ := exists_mark_of_piecesOf hleft
  have hturbofish : dropTurbofish (path (t :: us)).2 = u :: vs := by
    rw [hrest]
    refine dropTurbofish_of_headKind ?_
    rw [headKind_cons, hu]
    exact Kind.noConfusion
  obtain ⟨read, hread, hvalues, hleave⟩ := hargs vs hvs
  obtain ⟨r, hr, hclassify, hend⟩ := parseType_of_parseArguments eof hstarts hturbofish hu hread
  have hnames : ∀ part ∈ scope.parts, isName part := by
    rw [Scope.isWritable, Bool.and_eq_true] at hscope
    exact List.all_eq_true.1 hscope.1
  refine ⟨r, hr, ?_, ?_⟩
  · rw [hclassify, hparts, hvalues, classify_pathText hnames hname hvalue]
  · rw [hend, hleave]

/-- A name in a module starts like a type. -/
theorem opensAsType_scoped (scope : Scope) (name : String) (args : List Piece) :
    OpensAsType (scope.pieces name ++ mark .lt :: args) := by
  intro rest _ _
  rw [Scope.pieces]
  split
  · exact ⟨rfl, fun h => Kind.noConfusion h⟩
  · rw [List.nil_append, List.append_assoc]
    exact opensType_path (List.append_ne_nil_of_right_ne_nil _ (List.cons_ne_nil _ _))
      Kind.noConfusion Kind.noConfusion

/-- A lifetime in front of the arguments is left out. -/
theorem reads_arguments_lifetime (lifetime : String) {ps rest : List Piece}
    {values : List TypeExpr} (h : Reads (parseArguments eof) ps values rest) :
    Reads (parseArguments eof) (⟨.lifetime, lifetime⟩ :: mark .comma :: ps) values rest := by
  intro ts hts
  obtain ⟨t, us, rfl, hkind, -, hus⟩ := exists_cons_of_piecesOf hts
  have hskipped : skippedArgument? t us = some (.past () t us) := if_pos hkind
  have hbehind : Reads (argumentsBehind eof []) (mark .comma :: ps) values rest :=
    reads_parseSeparated_cons h
  obtain ⟨args, hargs, hvalues, hend⟩ := hbehind us hus
  rw [parseArguments_of_skipped eof (kind_ne_of_eq hkind Kind.noConfusion) hskipped]
  simp only [Parsed.rest_past, hargs, bind, Except.bind]
  exact ⟨_, rfl, hvalues, hend⟩

end Rust
end Ferrotype

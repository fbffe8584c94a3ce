/-
# Types in canonical form are read back

A type is sorted by its name: containers and scalars are known, any other name is a path. So a type
in canonical form is read back (`TypeExpr.isRead_of_isWritable`) in front of everything that does
not go on with its path.
-/

import Ferrotype.Proofs.Rust.Canonical.Type.Reading

namespace Ferrotype
namespace Rust

open Piece (mark isName)

/-! ## Sorting -/

/-- No name is the path of a scalar. -/
theorem ne_qualifiedScalar_of_isName {name : String} (hname : isName name) :
    name ≠ qualifiedScalar := by
  rintro rfl
  exact ne_true_of_eq_false (by decide) hname

/-- A name that is no container stands for itself. -/
theorem classify_of_isName {name : String} (hname : isName name)
    (hcontainer : containers.lookup name = none) (args : List TypeExpr) :
    TypeExpr.classify name args = .ofName name args := by
  rw [TypeExpr.classify, if_neg (ne_qualifiedScalar_of_isName hname), lastSegment_of_isName hname]
  simp only [hcontainer]

/-- The name of a type of the source stays a path. -/
theorem classify_of_isPathName {name : String} (h : TypeExpr.isPathName name)
    (args : List TypeExpr) : TypeExpr.classify name args = .path name args := by
  simp only [TypeExpr.isPathName, Bool.and_eq_true, Option.isNone_iff_eq_none] at h
  obtain ⟨⟨⟨hname, hcontainer⟩, hscalar⟩, -⟩ := h
  rw [classify_of_isName hname hcontainer, TypeExpr.ofName, hscalar]
  simp

/-- A scalar is known by its name, and one of them by its full path. -/
theorem classify_scalar {name : String} (h : (scalars.lookup name).isSome) :
    TypeExpr.classify name [] = .primitive name := by
  have hscalars : ∀ e ∈ scalars, e.1 = qualifiedScalar ∨ Text.lastSegment e.1 = e.1 ∧
      (containers.lookup e.1 = none ∨ containers.lookup e.1 = some .moment) := by decide
  obtain ⟨e, he, rfl⟩ := mem_of_lookup_isSome h
  rcases hscalars e he with hqualified | ⟨hlast, hcontainer | hcontainer⟩
  · rw [TypeExpr.classify, if_pos hqualified]
  · rw [TypeExpr.classify, hlast]
    simp only [hcontainer, TypeExpr.ofName, h]
    split <;> rfl
  · rw [TypeExpr.classify, hlast]
    simp only [hcontainer]
    split <;> rfl

/-! ## Types in canonical form are read back -/

/-- A path opens a type unless it stands for a binding. -/
theorem opensType_path {parts : List String} (hparts : parts ≠ []) {rest : List Piece}
    (heq : Piece.headKind rest ≠ .eq) (hcolon : Piece.headKind rest ≠ .colon) :
    OpensType (Piece.path parts ++ rest) := by
  fun_cases Piece.path parts with
  | case1 => exact absurd rfl hparts
  | case2 part => exact ⟨rfl, fun _ => ⟨heq, hcolon⟩⟩
  | case3 part next parts => exact ⟨rfl, fun _ => ⟨Kind.noConfusion, Kind.noConfusion⟩⟩

/-- A name with its arguments opens a type. -/
theorem opensType_appliedPieces (name : String) (args rest : List Piece) :
    OpensType (appliedPieces name args ++ rest) :=
  ⟨rfl, fun _ => ⟨Kind.noConfusion, Kind.noConfusion⟩⟩

/-- Whether pieces start like a type, whatever follows them but a binding. -/
def OpensAsType (ps : List Piece) : Prop :=
  ∀ {rest}, Piece.headKind rest ≠ .eq → Piece.headKind rest ≠ .colon → OpensType (ps ++ rest)

/-- What opens as a type starts one. -/
theorem startsType_of_opensAsType {ps : List Piece} (h : OpensAsType ps) :
    startsType (Piece.headKind ps) := by
  have hopens : OpensType (ps ++ []) := h Kind.noConfusion Kind.noConfusion
  rw [List.append_nil] at hopens
  cases ps with
  | nil => exact absurd hopens id
  | cons p ps => exact hopens.1

/-- What follows a type does not change what it starts with. -/
theorem headKind_append {ps : List Piece} (h : startsType (Piece.headKind ps)) (qs : List Piece) :
    Piece.headKind (ps ++ qs) = Piece.headKind ps := by
  cases ps with
  | nil => cases h
  | cons p ps => rfl

namespace TypeExpr

/-- The tokens of a list are those of its members with commas between them. -/
theorem piecesAll_eq_separated (ts : List TypeExpr) :
    piecesAll ts = Piece.separated pieces ts := by
  fun_induction Piece.separated pieces ts with
  | case1 => rfl
  | case2 t => rfl
  | case3 t u us ih => rw [piecesAll, ih]

/-- A type in canonical form starts like a type. -/
theorem opensType_pieces {t : TypeExpr} (h : t.isWritable) : OpensAsType t.pieces := by
  intro rest heq hcolon
  cases t with
  | path name args =>
    rw [pieces]
    split
    · exact ⟨rfl, fun _ => ⟨heq, hcolon⟩⟩
    · exact opensType_appliedPieces _ _ _
  | primitive name =>
    rw [pieces, scalarPieces]
    split
    · exact ⟨rfl, fun h => Kind.noConfusion h⟩
    · split
      · exact ⟨rfl, fun h => Kind.noConfusion h⟩
      · exact opensType_path (partsOf_ne_nil name) heq hcolon
  | option inner => exact opensType_appliedPieces _ _ _
  | sequence element => exact opensType_appliedPieces _ _ _
  | set element => exact opensType_appliedPieces _ _ _
  | map key value => exact opensType_appliedPieces _ _ _
  | tuple elements => exact ⟨rfl, fun h => Kind.noConfusion h⟩
  | verbatim text => cases h
  | unknown label => cases h

end TypeExpr

/-- What the parentheses of a tuple hold makes up that tuple. -/
theorem ofElements_of_ne {elements : List TypeExpr} (hne : elements ≠ []) {comma : Bool}
    (hone : comma ∨ elements.length ≠ 1) : ofElements elements comma = .tuple elements := by
  fun_cases ofElements elements comma with
  | case1 => exact absurd rfl hne
  | case2 element => exact absurd rfl (hone.resolve_left Bool.false_ne_true)
  | case3 => rfl

section RoundTrip

variable (eof : Token)

/-- Whether a type is read back in front of everything that does not go on with its path. -/
def TypeExpr.IsRead (t : TypeExpr) : Prop :=
  ∀ rest, endsType rest → Reads (parseType eof) (t.pieces ++ rest) t rest

/-- Whether pieces are read as a type in front of everything that does not go on with its path. -/
def ReadAsType (ps : List Piece) (value : TypeExpr) : Prop :=
  OpensAsType ps ∧ ∀ rest, endsType rest → Reads (parseType eof) (ps ++ rest) value rest

/-- Types between angle brackets are read one after the other. -/
theorem reads_arguments {α : Type} {write : α → List Piece} {value : α → TypeExpr} {as : List α}
    (hne : as ≠ []) (h : ∀ a ∈ as, ReadAsType eof (write a) (value a)) (rest : List Piece) :
    Reads (parseArguments eof) (Piece.separated write as ++ mark .gt :: rest) (as.map value)
      rest := by
  induction as with
  | nil => exact absurd rfl hne
  | cons a as ih =>
    obtain ⟨⟨hopens, hread⟩, has⟩ := List.forall_mem_cons.1 h
    cases as with
    | nil =>
      exact reads_arguments_last eof (hopens Kind.noConfusion Kind.noConfusion)
        (hread _ ⟨Kind.noConfusion, Kind.noConfusion⟩)
    | cons b bs =>
      rw [Piece.separated, List.append_assoc, List.cons_append]
      exact reads_arguments_cons eof (hopens Kind.noConfusion Kind.noConfusion)
        (hread _ ⟨Kind.noConfusion, Kind.noConfusion⟩) (ih (List.cons_ne_nil _ _) has)

/-- Types in parentheses are read one after the other, with or without a comma behind the last
one. -/
theorem reads_elements {α : Type} {write : α → List Piece} {value : α → TypeExpr} {as : List α}
    (hne : as ≠ []) (h : ∀ a ∈ as, ReadAsType eof (write a) (value a)) (comma trailing : Bool)
    (rest : List Piece) :
    Reads (parseElements eof · comma) (Piece.separated write as ++
      ((if trailing then [mark .comma] else []) ++ mark .rparen :: rest))
      (as.map value, trailing) rest := by
  induction as generalizing comma with
  | nil => exact absurd rfl hne
  | cons a as ih =>
    obtain ⟨⟨hopens, hread⟩, has⟩ := List.forall_mem_cons.1 h
    cases as with
    | nil =>
      cases trailing with
      | false =>
        exact reads_elements_last eof (hopens Kind.noConfusion Kind.noConfusion)
          (hread _ ⟨Kind.noConfusion, Kind.noConfusion⟩)
      | true =>
        exact reads_elements_cons eof (hopens Kind.noConfusion Kind.noConfusion)
          (hread _ ⟨Kind.noConfusion, Kind.noConfusion⟩) (reads_elements_nil eof rest true)
    | cons b bs =>
      rw [Piece.separated, List.append_assoc, List.cons_append]
      exact reads_elements_cons eof (hopens Kind.noConfusion Kind.noConfusion)
        (hread _ ⟨Kind.noConfusion, Kind.noConfusion⟩)
        (ih (List.cons_ne_nil _ _) has true)

/-- Scalars are read back. -/
theorem TypeExpr.isRead_scalar {name : String} (h : (scalars.lookup name).isSome) :
    (TypeExpr.primitive name).IsRead eof := by
  intro rest hrest
  have hwords : ∀ e ∈ scalars, verbatimWords.contains ((partsOf e.1).headD "") = false := by decide
  obtain ⟨e, he, rfl⟩ := mem_of_lookup_isSome h
  rw [TypeExpr.pieces, scalarPieces]
  split
  · rename_i hunit
    rw [hunit]
    exact reads_parentheses eof (reads_elements_nil eof rest false)
  · split
    · rename_i hnever
      rw [hnever]
      exact reads_bang eof rest
    · have hword := hwords e he
      have htext := pathText_partsOf e.1
      cases hparts : partsOf e.1 with
      | nil => exact absurd hparts (partsOf_ne_nil e.1)
      | cons part parts =>
        rw [hparts] at hword htext
        rw [← classify_scalar h, ← htext]
        exact reads_path eof hword hrest

/-- A type that is a name with arguments is read back if they are. -/
theorem TypeExpr.isRead_applied {name : String} {args : List TypeExpr} {t : TypeExpr}
    (hpieces : t.pieces = appliedPieces name (TypeExpr.piecesAll args))
    (hname : verbatimWords.contains name = false) (hclassify : .classify name args = t)
    (hne : args ≠ []) (hargs : ∀ arg ∈ args, arg.isWritable ∧ arg.IsRead eof) : t.IsRead eof := by
  intro rest _
  have harg (arg : TypeExpr) (hmem : arg ∈ args) : ReadAsType eof arg.pieces (id arg) :=
    ⟨TypeExpr.opensType_pieces (hargs arg hmem).1, (hargs arg hmem).2⟩
  have hread := reads_arguments eof hne harg rest
  rw [List.map_id, ← TypeExpr.piecesAll_eq_separated] at hread
  rw [hpieces, ← hclassify]
  exact reads_applied eof hname hread

mutual

/-- **A type in canonical form is read back.** -/
theorem TypeExpr.isRead_of_isWritable (t : TypeExpr) (h : t.isWritable) : t.IsRead eof := by
  cases t with
  | path name args =>
    rw [TypeExpr.isWritable, Bool.and_eq_true] at h
    obtain ⟨hname, hargs⟩ := h
    have hclassify := classify_of_isPathName hname args
    rw [TypeExpr.isPathName, Bool.and_eq_true, Bool.not_eq_true'] at hname
    obtain ⟨-, hword⟩ := hname
    cases args with
    | nil =>
      intro rest hrest
      have hread : Reads (parseType eof) (Piece.path [name] ++ rest) (.classify name []) rest :=
        reads_path eof hword hrest
      rwa [hclassify] at hread
    | cons arg args =>
      exact TypeExpr.isRead_applied eof rfl hword hclassify (List.cons_ne_nil _ _)
        (TypeExpr.isRead_of_isWritableAll _ hargs)
  | primitive name => exact TypeExpr.isRead_scalar eof h
  | option inner =>
    rw [TypeExpr.isWritable] at h
    have hclassify : TypeExpr.classify "Option" [inner] = .option inner := rfl
    refine TypeExpr.isRead_applied eof rfl rfl hclassify (List.cons_ne_nil _ _) ?_
    exact List.forall_mem_singleton.2 ⟨h, TypeExpr.isRead_of_isWritable inner h⟩
  | sequence element =>
    rw [TypeExpr.isWritable] at h
    have hclassify : TypeExpr.classify "Vec" [element] = .sequence element := rfl
    refine TypeExpr.isRead_applied eof rfl rfl hclassify (List.cons_ne_nil _ _) ?_
    exact List.forall_mem_singleton.2 ⟨h, TypeExpr.isRead_of_isWritable element h⟩
  | set element =>
    rw [TypeExpr.isWritable] at h
    have hclassify : TypeExpr.classify "HashSet" [element] = .set element := rfl
    refine TypeExpr.isRead_applied eof rfl rfl hclassify (List.cons_ne_nil _ _) ?_
    exact List.forall_mem_singleton.2 ⟨h, TypeExpr.isRead_of_isWritable element h⟩
  | map key value =>
    rw [TypeExpr.isWritable, Bool.and_eq_true] at h
    obtain ⟨hkey, hvalue⟩ := h
    have hclassify : TypeExpr.classify "HashMap" [key, value] = .map key value := rfl
    refine TypeExpr.isRead_applied eof rfl rfl hclassify (List.cons_ne_nil _ _) ?_
    exact List.forall_mem_cons.2 ⟨⟨hkey, TypeExpr.isRead_of_isWritable key hkey⟩,
      List.forall_mem_singleton.2 ⟨hvalue, TypeExpr.isRead_of_isWritable value hvalue⟩⟩
  | tuple elements =>
    rw [TypeExpr.isWritable, Bool.and_eq_true, Bool.not_eq_true', List.isEmpty_eq_false_iff] at h
    obtain ⟨hne, helements⟩ := h
    intro rest _
    have htuple : ofElements elements (decide (elements.length = 1)) = .tuple elements :=
      ofElements_of_ne hne (by rw [decide_eq_true_eq]; exact Decidable.em _)
    have helement (t : TypeExpr) (ht : t ∈ elements) : ReadAsType eof t.pieces (id t) :=
      have hread := TypeExpr.isRead_of_isWritableAll elements helements t ht
      ⟨TypeExpr.opensType_pieces hread.1, hread.2⟩
    have hread := reads_parentheses eof
      (reads_elements eof hne helement false (decide (elements.length = 1)) rest)
    rw [List.map_id, htuple] at hread
    rw [TypeExpr.pieces, TypeExpr.piecesAll_eq_separated, List.cons_append, List.append_assoc,
      List.append_assoc, List.singleton_append]
    simpa only [decide_eq_true_eq] using hread
  | verbatim text => cases h
  | unknown label => cases h

/-- The members of a list are read back. The induction is that on types. -/
theorem TypeExpr.isRead_of_isWritableAll (ts : List TypeExpr) (h : TypeExpr.isWritableAll ts) :
    ∀ t ∈ ts, t.isWritable ∧ t.IsRead eof := by
  cases ts with
  | nil => exact fun t ht => absurd ht List.not_mem_nil
  | cons t ts =>
    rw [TypeExpr.isWritableAll, Bool.and_eq_true] at h
    exact List.forall_mem_cons.2
      ⟨⟨h.1, TypeExpr.isRead_of_isWritable t h.1⟩, TypeExpr.isRead_of_isWritableAll ts h.2⟩

end

end RoundTrip

end Rust
end Ferrotype

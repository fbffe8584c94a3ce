/-
# Spelling type parameters

In canonical form type parameters are names in angle brackets, and nothing if there are none.
`reads_generics` says that they are read back.
-/

import Ferrotype.Proofs.Rust.Canonical.Reads

namespace Ferrotype
namespace Rust

open Piece (mark isName)

/-- The pieces of the names of type parameters with their angle brackets. -/
def genericsPieces (names : List String) : List Piece :=
  if names.isEmpty then []
  else mark .lt :: (Piece.separated (fun name => [Piece.name name]) names ++ [mark .gt])

section Reading

variable (eof : Token)

/-- Nothing is dropped where a parameter has no bounds. -/
theorem dropBounds_of_endsBounds {ts : List Token} (h : endsBounds (headKind ts)) :
    dropBounds 0 ts = ts := by
  cases ts with
  | nil => rw [dropBounds]
  | cons t ts => rw [dropBounds, if_pos ⟨rfl, h⟩]

/-- A name alone is a parameter. -/
theorem dropParameter_of_name {t : Token} {ts : List Token} (hkind : t.kind = .identifier)
    (h : endsBounds (headKind ts)) : dropParameter t ts = dropIf .comma ts := by
  rw [dropParameter, if_pos (by rw [hkind]; rfl), dropBounds_of_endsBounds h]

/-- A name among the type parameters is read with the comma behind it. -/
theorem parameterNames_of_name {t : Token} {ts : List Token} (hkind : t.kind = .identifier)
    (h : endsBounds (headKind ts)) {more : Parsed (List String) (dropIf .comma ts).length}
    (hmore : parameterNames eof (dropIf .comma ts) = .ok more) :
    ∃ r, parameterNames eof (t :: ts) = .ok r ∧ r.value = t.text :: more.value ∧
      r.rest = more.rest := by
  have hdrop : ∃ m, parameterNames eof (dropParameter t ts) = .ok m ∧ m.value = more.value ∧
      m.rest = more.rest := by
    rw [dropParameter_of_name hkind h]
    exact ⟨more, hmore, rfl, rfl⟩
  obtain ⟨m, hm, hvalue, hrest⟩ := hdrop
  rw [parameterNames, dif_neg (kind_ne_of_eq hkind Kind.noConfusion)]
  simp only [hm, bind, Except.bind, if_pos hkind]
  refine ⟨_, rfl, ?_, hrest⟩
  rw [Parsed.value_widen, Parsed.value_later, Parsed.value_map, hvalue]
  rfl

/-- Lists of names are read back as parameters. The induction is on the list. -/
theorem reads_names (names : List String) (rest : List Piece) :
    Reads (parameterNames eof) (Piece.separated (fun name => [Piece.name name]) names ++
      mark .gt :: rest) names rest := by
  have hnil (rest : List Piece) : Reads (parameterNames eof) (mark .gt :: rest) [] rest := by
    intro ts hts
    obtain ⟨t, us, rfl, hkind, hus⟩ := exists_mark_of_piecesOf hts
    rw [parameterNames, dif_pos hkind]
    exact ⟨_, rfl, rfl, hus⟩
  induction names using Piece.separated.induct with
  | case1 => exact hnil rest
  | case2 name =>
    intro ts hts
    obtain ⟨t, us, rfl, hkind, htext, hus⟩ := exists_cons_of_piecesOf hts
    have hhead : headKind us = .gt := headKind_of_piecesOf hus
    have hdrop : dropIf .comma us = us :=
      dropIf_of_headKind (by rw [hhead]; exact Kind.noConfusion)
    obtain ⟨more, hmore, hnone, hend⟩ := hnil rest (dropIf .comma us) (by rw [hdrop]; exact hus)
    obtain ⟨r, hr, hvalue, hrest⟩ :=
      parameterNames_of_name eof hkind (by rw [hhead]; rfl) hmore
    refine ⟨r, hr, ?_, hrest ▸ hend⟩
    rw [hvalue, htext, hnone]
    rfl
  | case3 name next more ih =>
    intro ts hts
    rw [Piece.separated, List.append_assoc, List.cons_append] at hts
    obtain ⟨t, us, rfl, hkind, htext, hus⟩ := exists_cons_of_piecesOf hts
    obtain ⟨u, vs, rfl, hu, hvs⟩ := exists_mark_of_piecesOf hus
    have hdrop : dropIf .comma (u :: vs) = vs := by rw [dropIf, if_pos hu]
    obtain ⟨read, hread, hnames, hend⟩ := ih (dropIf .comma (u :: vs)) (by rw [hdrop]; exact hvs)
    obtain ⟨r, hr, hvalue, hrest⟩ :=
      parameterNames_of_name eof hkind (by rw [headKind_cons, hu]; rfl) hread
    refine ⟨r, hr, ?_, hrest ▸ hend⟩
    rw [hvalue, htext, hnames]
    rfl

/-- **Type parameters in canonical form are read back.** -/
theorem reads_generics (names : List String) {rest : List Piece}
    (hrest : Piece.headKind rest ≠ .lt) :
    Reads (generics eof) (genericsPieces names ++ rest) names rest := by
  intro ts hts
  cases names with
  | nil =>
    have hhead : headKind ts ≠ .lt := by rwa [headKind_of_piecesOf hts]
    cases ts with
    | nil => exact ⟨_, rfl, rfl, hts⟩
    | cons t ts =>
      rw [headKind_cons] at hhead
      rw [generics, if_neg hhead]
      exact ⟨_, rfl, rfl, hts⟩
  | cons name names =>
    rw [genericsPieces, if_neg (by simp), Piece.enclosed_append] at hts
    obtain ⟨t, us, rfl, hkind, hus⟩ := exists_mark_of_piecesOf hts
    obtain ⟨r, hr, hvalue, hleft⟩ := reads_names eof (name :: names) rest us hus
    rw [generics, if_pos hkind, hr]
    exact ⟨_, rfl, hvalue, hleft⟩

end Reading

/-- The tokens of parameters are legible. -/
theorem legible_genericsPieces {names : List String} (h : names.all isName) :
    ∀ p ∈ genericsPieces names, p.Legible := by
  rw [List.all_eq_true] at h
  rw [genericsPieces]
  split
  · exact List.forall_mem_nil _
  · refine Piece.legible_enclosed (by decide) (by decide)
      (Piece.legible_separated fun name hname => ?_)
    rw [List.forall_mem_singleton]
    exact Piece.legible_name (h name hname)

end Rust
end Ferrotype

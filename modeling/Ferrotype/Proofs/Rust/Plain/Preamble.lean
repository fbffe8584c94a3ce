/-
# Preambles of tokens

Documentation and attributes stand before an item, and its visibility behind them. Some tokens are a
preamble if they are read as one in front of everything that goes on with neither
(`IsPreamble`). Behind them and a visibility the item decides (`parseItems_of_isPreamble`).
-/

import Ferrotype.Proofs.Rust.Plain.Visibility

namespace Ferrotype
namespace Rust

variable [Text.StandIn]

/-! ## Preambles -/

/-- Whether tokens are read as a preamble, up to whatever follows them that is no part of it. -/
def IsPreamble (eof : Token) (front : List Token) (p : Preamble) : Prop :=
  ∀ us, headKind us ≠ .doc → headKind us ≠ .hash →
    ∃ r, preamble eof (front ++ us) = .ok r ∧ r.value = p ∧ r.rest = us

/-- Whether tokens are read as an attribute, behind its opening bracket. -/
def ReadsBody (eof : Token) (ts : List Token) (a : Attribute) : Prop :=
  ∀ us, ∃ r, attributeBody eof (ts ++ us) = .ok r ∧ r.value = a ∧ r.rest = us

/-- No tokens are documentation and attributes of nothing. -/
theorem isPreamble_nil (eof : Token) : IsPreamble eof [] ⟨[], []⟩ := fun _ hdoc hhash =>
  ⟨_, preamble_of_none hdoc fun h => absurd h hhash, rfl, rfl⟩

variable {eof t : Token} {front : List Token} {p : Preamble}

namespace IsPreamble

/-- A line of documentation comes first. -/
theorem cons_doc (ht : t.kind = .doc) (hfront : IsPreamble eof front p) :
    IsPreamble eof (t :: front) (p.consDoc t.text) := by
  intro us hdoc hhash
  obtain ⟨more, hmore, rfl, hrest⟩ := hfront us hdoc hhash
  rw [List.cons_append, preamble, if_pos ht, hmore]
  exact ⟨_, rfl, rfl, hrest⟩

/-- An attribute comes first. -/
theorem cons_attribute {bracket : Token} {ts : List Token} {a : Attribute} (ht : t.kind = .hash)
    (hbracket : bracket.kind = .lbracket) (ha : ReadsBody eof ts a)
    (hfront : IsPreamble eof front p) :
    IsPreamble eof (t :: bracket :: (ts ++ front)) (p.consAttribute a) := by
  intro us hdoc hhash
  obtain ⟨r, (hread : attributeBody eof ((bracket :: (ts ++ (front ++ us))).drop 1) = .ok r),
    rfl, hleft⟩ := ha (front ++ us)
  obtain ⟨more, hmore, rfl, hrest⟩ :
      ∃ q, preamble eof r.rest = .ok q ∧ q.value = p ∧ q.rest = us := by
    rw [hleft]
    exact hfront us hdoc hhash
  rw [List.cons_append, List.cons_append, List.append_assoc, preamble, if_neg (by simp [ht]),
    if_pos ⟨ht, hbracket⟩, hread]
  simp only [bind, Except.bind, hmore]
  exact ⟨_, rfl, rfl, hrest⟩

/-- A preamble opens no attribute of the whole source. -/
theorem not_bang {us ts : List Token} (hfront : IsPreamble eof front p)
    (hdoc : headKind us ≠ .doc) (hhash : headKind us ≠ .hash) (hts : front ++ us = t :: ts) :
    ¬ (t.kind = .hash ∧ headKind ts = .bang) := by
  rintro ⟨hkind, hbang⟩
  obtain ⟨r, hr, -, hrest⟩ : ∃ r, preamble eof (t :: ts) = .ok r ∧ r.value = p ∧ r.rest = us :=
    hts ▸ hfront us hdoc hhash
  rw [preamble_of_none (by simp [hkind]) (by simp [hbang])] at hr
  cases hr
  rw [← hrest] at hhash
  exact hhash hkind

/-- A preamble starts with a line of documentation or a hash. -/
theorem headKind_append {us : List Token} (hfront : IsPreamble eof front p)
    (hdoc : headKind us ≠ .doc) (hhash : headKind us ≠ .hash) :
    headKind (front ++ us) = .doc ∨ headKind (front ++ us) = .hash ∨ front = [] := by
  by_cases hdoc' : headKind (front ++ us) = .doc
  · exact .inl hdoc'
  by_cases hhash' : headKind (front ++ us) = .hash
  · exact .inr (.inl hhash')
  obtain ⟨r, hr, -, hrest⟩ := hfront us hdoc hhash
  rw [preamble_of_none hdoc' fun h => absurd h hhash'] at hr
  cases hr
  exact .inr (.inr (List.append_left_eq_self.1 hrest))

end IsPreamble

/-- An attribute without arguments. -/
theorem readsBody_word {word closer : Token} (hword : word.kind = .identifier)
    (hcloser : closer.kind = .rbracket) : ReadsBody eof [word, closer] ⟨word.text, []⟩ := by
  intro us
  rw [List.cons_append, List.singleton_append]
  have hpath : path (word :: closer :: us) = ([word.text], closer :: us) := by
    simp [path, dropIf, segments, isSegment, hword, hcloser]
  have hname : pathText (path (word :: closer :: us)).1 = word.text := by
    rw [hpath]
    simp [pathText]
  have hargs : attributeArguments eof (path (word :: closer :: us)).2 =
      .ok (.before [] (path (word :: closer :: us)).2) := by
    rw [hpath, attributeArguments, if_neg (by simp [hcloser]), if_neg (by simp [hcloser])]
  obtain ⟨closing, hclosing, hrest⟩ : ∃ closing, expect eof .rbracket
      (.closingAttribute (pathText (path (word :: closer :: us)).1))
      (dropToBracket (path (word :: closer :: us)).2) = .ok closing ∧ closing.rest = us := by
    rw [hpath, dropToBracket, if_pos hcloser, expect, if_pos hcloser]
    exact ⟨_, rfl, rfl⟩
  simp only [attributeBody, hargs, bind, Except.bind, Parsed.rest_before, hclosing]
  exact ⟨_, rfl, congrArg (Attribute.mk · []) hname, hrest⟩

/-! ## Behind a preamble -/

/-- Behind a preamble the tokens decide that stand behind the visibility. -/
theorem IsPreamble.parseItems_behind (hfront : IsPreamble eof front p) {us : List Token}
    (hdoc : headKind us ≠ .doc) (hhash : headKind us ≠ .hash) :
    parseItems eof (front ++ us) = match dropVisibility us with
      | [] => .ok []
      | t :: ts => parseItem eof p t ts >>= fun
        | some item => (parseItems eof item.rest).map (item.value :: ·)
        | none => parseItems eof (dropItem (t :: ts)) := by
  cases hall : front ++ us with
  | nil =>
    obtain ⟨-, rfl⟩ := List.append_eq_nil_iff.1 hall
    rw [parseItems]
    rfl
  | cons t ts =>
    obtain ⟨r, hr, rfl, rfl⟩ :
        ∃ r, preamble eof (t :: ts) = .ok r ∧ r.value = p ∧ r.rest = us :=
      hall ▸ hfront us hdoc hhash
    exact parseItems_of_preamble (hfront.not_bang hdoc hhash hall) hr

/-- Behind a preamble and a visibility the item decides. -/
theorem parseItems_of_isPreamble {vs : List Token} (hfront : IsPreamble eof front p)
    {v : Visibility} (hv : v.isWritable) (hvs : piecesOf vs = v.pieces) (ts : List Token)
    (ht : t.kind ∉ [Kind.doc, .hash, .pub, .lparen]) :
    parseItems eof (front ++ (vs ++ t :: ts)) = parseItem eof p t ts >>= fun
      | some item => (parseItems eof item.rest).map (item.value :: ·)
      | none => parseItems eof (dropItem (t :: ts)) := by
  simp only [List.mem_cons, List.not_mem_nil, or_false, not_or] at ht
  obtain ⟨hdoc, hhash, hpub, hparen⟩ := ht
  have hdoc' : headKind (vs ++ t :: ts) ≠ .doc :=
    headKind_append_visibility hvs Kind.noConfusion hdoc
  have hhash' : headKind (vs ++ t :: ts) ≠ .hash :=
    headKind_append_visibility hvs Kind.noConfusion hhash
  have hvisible : dropVisibility (vs ++ t :: ts) = t :: ts :=
    dropVisibility_append hv hvs hpub fun _ => hparen
  rw [hfront.parseItems_behind hdoc' hhash', hvisible]

end Rust
end Ferrotype
